import Mathlib.Data.Nat.Digits.Defs
import Mathlib.Data.Nat.Digits.Lemmas
import Mathlib.Logic.Function.Iterate

namespace BeaconNode.ShiftRegister

variable {w k : Nat} {poly : BitVec w}

/-- One shift of a register that divides by a polynomial, lowest bit first. -/
def shift (poly x : BitVec w) : BitVec w :=
  if x.getLsbD 0 then (x >>> 1) ^^^ poly else x >>> 1

def feed (poly : BitVec w) (k : Nat) (x : BitVec w) (digit : Nat) : BitVec w :=
  (shift poly)^[k] (x ^^^ BitVec.ofNat w digit)

theorem shift_xor (x y : BitVec w) : shift poly (x ^^^ y) = shift poly x ^^^ shift poly y := by
  simp only [shift, BitVec.getLsbD_xor, BitVec.ushiftRight_xor_distrib]
  cases x.getLsbD 0 with
  | false =>
      cases y.getLsbD 0 with
      | false => rfl
      | true => exact BitVec.xor_assoc _ _ _
  | true =>
      cases y.getLsbD 0 with
      | false =>
          change (x >>> 1 ^^^ y >>> 1) ^^^ poly = (x >>> 1 ^^^ poly) ^^^ y >>> 1
          rw [BitVec.xor_assoc, BitVec.xor_comm (y >>> 1), BitVec.xor_assoc]
      | true =>
          -- the polynomial comes in twice
          change x >>> 1 ^^^ y >>> 1 = (x >>> 1 ^^^ poly) ^^^ (y >>> 1 ^^^ poly)
          rw [BitVec.xor_comm (y >>> 1), BitVec.xor_assoc, ← BitVec.xor_assoc poly, BitVec.xor_self,
            BitVec.zero_xor]

theorem iterate_shift_xor (n : Nat) (x y : BitVec w) :
    (shift poly)^[n] (x ^^^ y) = (shift poly)^[n] x ^^^ (shift poly)^[n] y := by
  induction n generalizing x y with
  | zero => rfl
  | succ n ih => rw [Function.iterate_succ_apply, shift_xor, ih, Function.iterate_succ_apply,
      Function.iterate_succ_apply]

theorem eq_of_ushiftRight {x y : BitVec w} (h : x >>> 1 = y >>> 1) (hl : x.getLsbD 0 = y.getLsbD 0) : x = y := by
  apply BitVec.eq_of_getLsbD_eq
  intro i _
  cases i with
  | zero => exact hl
  | succ i =>
      have hi := congrArg (fun z => z.getLsbD i) h
      simpa [BitVec.getLsbD_ushiftRight, Nat.add_comm] using hi

/-- After a shift the highest bit tells whether the polynomial came in. -/
theorem msb_shift (hp : poly.msb = true) (x : BitVec w) : (shift poly x).msb = x.getLsbD 0 := by
  have hshift : (x >>> 1).msb = false := by simp [BitVec.msb_ushiftRight]
  rw [shift]
  split
  next h => rw [BitVec.msb_xor, hshift, hp, h, Bool.false_xor]
  next h => rw [hshift, Bool.eq_false_iff.mpr h]

theorem shift_injective (hp : poly.msb = true) : Function.Injective (shift poly) := by
  intro x y h
  have hl : x.getLsbD 0 = y.getLsbD 0 := by rw [← msb_shift hp, ← msb_shift hp, h]
  apply eq_of_ushiftRight _ hl
  simp only [shift, hl] at h
  split at h
  · exact (BitVec.xor_left_inj poly).mp h
  · exact h

theorem feed_injective (hp : poly.msb = true) (digit : Nat) : Function.Injective (fun x => feed poly k x digit) := by
  intro x y h
  exact (BitVec.xor_left_inj _).mp ((shift_injective hp).iterate k h)

theorem foldl_feed_injective (hp : poly.msb = true) (digits : List Nat) :
    Function.Injective (fun x => digits.foldl (feed poly k) x) := by
  induction digits with
  | nil => exact fun x y h => h
  | cons digit digits ih => exact fun x y h => feed_injective hp digit (ih h)

/-- A register whose lowest bits are zero only moves down. -/
theorem iterate_shift_shiftLeft (poly : BitVec w) {n : Nat} (hn : n < 2 ^ (w - k)) (hk : k ≤ w) :
    (shift poly)^[k] (BitVec.ofNat w (2 ^ k * n)) = BitVec.ofNat w n := by
  induction k with
  | zero => simp
  | succ k ih =>
      have hlt : n < 2 ^ (w - k) := lt_of_lt_of_le hn (Nat.pow_le_pow_right (by omega) (by omega))
      have hbound : 2 ^ k * n * 2 < 2 ^ w := by
        calc 2 ^ k * n * 2 = 2 ^ (k + 1) * n := by ring
          _ < 2 ^ (k + 1) * 2 ^ (w - (k + 1)) := Nat.mul_lt_mul_of_pos_left hn (by positivity)
          _ = 2 ^ w := by rw [← pow_add]; congr 1; omega
      have hstep : shift poly (BitVec.ofNat w (2 ^ (k + 1) * n)) = BitVec.ofNat w (2 ^ k * n) := by
        have hlow : (BitVec.ofNat w (2 ^ (k + 1) * n)).getLsbD 0 = false := by
          simp [BitVec.getLsbD_ofNat, pow_succ, mul_right_comm]
        rw [shift, hlow, if_neg Bool.false_ne_true]
        apply BitVec.eq_of_toNat_eq
        rw [BitVec.toNat_ushiftRight, BitVec.toNat_ofNat, BitVec.toNat_ofNat, pow_succ, mul_right_comm,
          Nat.mod_eq_of_lt hbound, Nat.mod_eq_of_lt (by omega), Nat.shiftRight_eq_div_pow, pow_one]
        omega
      rw [Function.iterate_succ_apply, hstep, ih hlt (by omega)]

theorem ofNat_digit {d n : Nat} (hd : d < 2 ^ k) :
    BitVec.ofNat w (d + 2 ^ k * n) = BitVec.ofNat w d ^^^ BitVec.ofNat w (2 ^ k * n) := by
  apply BitVec.eq_of_getLsbD_eq
  intro i hi
  rw [BitVec.getLsbD_xor, BitVec.getLsbD_ofNat, BitVec.getLsbD_ofNat, BitVec.getLsbD_ofNat, Nat.add_comm,
    Nat.testBit_two_pow_mul_add n hd, Nat.testBit_two_pow_mul]
  by_cases hik : i < k
  · have hki : ¬ k ≤ i := by omega
    simp [hi, hik, hki]
  · have hki : k ≤ i := by omega
    have hzero : d.testBit i = false :=
      Nat.testBit_lt_two_pow (lt_of_lt_of_le hd (Nat.pow_le_pow_right (by omega) hki))
    simp [hi, hik, hki, hzero]

theorem ofDigits_lt {digits : List Nat} {n : Nat} (hk : 0 < k) (hd : ∀ d ∈ digits, d < 2 ^ k)
    (hn : k * digits.length ≤ n) : Nat.ofDigits (2 ^ k) digits < 2 ^ n :=
  calc Nat.ofDigits (2 ^ k) digits < (2 ^ k) ^ digits.length :=
        Nat.ofDigits_lt_base_pow_length (Nat.one_lt_two_pow (by omega)) hd
    _ = 2 ^ (k * digits.length) := (pow_mul 2 k digits.length).symm
    _ ≤ 2 ^ n := Nat.pow_le_pow_right (by omega) hn

theorem foldl_feed (digits : List Nat) (x : BitVec w) (hd : ∀ d ∈ digits, d < 2 ^ k)
    (hk : 0 < k) (hw : k * digits.length ≤ w) :
    digits.foldl (feed poly k) x =
      (shift poly)^[k * digits.length] (x ^^^ BitVec.ofNat w (Nat.ofDigits (2 ^ k) digits)) := by
  induction digits generalizing x with
  | nil => simp
  | cons d ds ih =>
      rw [List.length_cons, Nat.mul_succ] at hw ⊢
      have hds : ∀ e ∈ ds, e < 2 ^ k := fun e he => hd e (List.mem_cons_of_mem d he)
      have hrest : Nat.ofDigits (2 ^ k) ds < 2 ^ (w - k) := ofDigits_lt hk hds (by omega)
      rw [List.foldl_cons, ih _ hds (by omega), feed, Nat.ofDigits_cons, ofNat_digit (hd d List.mem_cons_self),
        ← iterate_shift_shiftLeft poly hrest (by omega), ← iterate_shift_xor,
        ← Function.iterate_add_apply, BitVec.xor_assoc]

theorem eq_of_foldl_feed (hp : poly.msb = true) (hk : 0 < k) {ds es : List Nat} {x : BitVec w}
    (hlength : ds.length = es.length) (hd : ∀ d ∈ ds, d < 2 ^ k) (he : ∀ e ∈ es, e < 2 ^ k)
    (hw : k * ds.length ≤ w) (h : ds.foldl (feed poly k) x = es.foldl (feed poly k) x) : ds = es := by
  rw [foldl_feed ds x hd hk hw, foldl_feed es x he hk (hlength ▸ hw), hlength] at h
  have hvalue := (BitVec.xor_right_inj x).mp ((shift_injective hp).iterate _ h)
  have hnat := congrArg BitVec.toNat hvalue
  rw [BitVec.toNat_ofNat, BitVec.toNat_ofNat, Nat.mod_eq_of_lt (ofDigits_lt hk hd hw),
    Nat.mod_eq_of_lt (ofDigits_lt hk he (hlength ▸ hw))] at hnat
  exact Nat.ofDigits_inj_of_len_eq (Nat.one_lt_two_pow (by omega)) hlength hd he hnat

end BeaconNode.ShiftRegister
