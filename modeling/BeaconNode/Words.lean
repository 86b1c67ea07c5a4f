import Mathlib.Data.List.Lex
import Mathlib.Data.UInt
import Mathlib.Order.Lattice

namespace BeaconNode.Words

abbrev Bytes := List UInt8

instance linearOrderUInt8 : LinearOrder UInt8 where
  le_refl _ := UInt8.le_refl _
  le_trans _ _ _ := UInt8.le_trans
  lt_iff_le_not_ge a b := by
    simp only [UInt8.lt_iff_toNat_lt, UInt8.le_iff_toNat_le]
    omega
  le_antisymm _ _ := UInt8.le_antisymm
  le_total _ _ := UInt8.le_total _ _
  toDecidableLE := inferInstance
  toDecidableEq := inferInstance
  toDecidableLT := inferInstance

instance linearOrderUInt64 : LinearOrder UInt64 where
  le_refl _ := UInt64.le_refl _
  le_trans _ _ _ := UInt64.le_trans
  lt_iff_le_not_ge a b := by
    simp only [UInt64.lt_iff_toNat_lt, UInt64.le_iff_toNat_le]
    omega
  le_antisymm _ _ := UInt64.le_antisymm
  le_total _ _ := UInt64.le_total _ _
  toDecidableLE := inferInstance
  toDecidableEq := inferInstance
  toDecidableLT := inferInstance

theorem uint64_zero_le (a : UInt64) : 0 ≤ a := by
  rw [UInt64.le_iff_toNat_le]
  exact Nat.zero_le _

/-- The object representation of a 32-bit word on a little-endian machine,
as a raw write of the word puts it into a file. -/
def leBytes (n : UInt32) : Bytes :=
  [UInt8.ofNat n.toNat, UInt8.ofNat (n.toNat / 2 ^ 8), UInt8.ofNat (n.toNat / 2 ^ 16),
    UInt8.ofNat (n.toNat / 2 ^ 24)]

def leWord (a b c d : UInt8) : UInt32 :=
  UInt32.ofNat (a.toNat + 2 ^ 8 * b.toNat + 2 ^ 16 * c.toNat + 2 ^ 24 * d.toNat)

/-- Read a word and keep the rest of the stream. Fewer than four bytes are
a short read, after which the stream is in its failed state. -/
def readWord : Bytes → Option (UInt32 × Bytes)
  | a :: b :: c :: d :: rest => some (leWord a b c d, rest)
  | _ => none

@[simp] theorem leBytes_length (n : UInt32) : (leBytes n).length = 4 := rfl

theorem readWord_leBytes (n : UInt32) (rest : Bytes) : readWord (leBytes n ++ rest) = some (n, rest) := by
  have hn := n.toNat_lt
  have hw : leWord (UInt8.ofNat n.toNat) (UInt8.ofNat (n.toNat / 2 ^ 8))
      (UInt8.ofNat (n.toNat / 2 ^ 16)) (UInt8.ofNat (n.toNat / 2 ^ 24)) = n := by
    apply UInt32.toNat_inj.mp
    simp only [leWord, UInt32.toNat_ofNat', UInt8.toNat_ofNat']
    omega
  simp only [leBytes, List.cons_append, List.nil_append, readWord, hw]

theorem readWord_length {bytes rest : Bytes} {n : UInt32} (h : readWord bytes = some (n, rest)) :
    bytes.length = rest.length + 4 := by
  match bytes, h with
  | a :: b :: c :: d :: rest, h =>
      simp only [readWord, Option.some.injEq, Prod.mk.injEq] at h
      simp [← h.2]

theorem leBytes_leWord (a b c d : UInt8) : leBytes (leWord a b c d) = [a, b, c, d] := by
  have ha := a.toNat_lt
  have hb := b.toNat_lt
  have hc := c.toNat_lt
  have hd := d.toNat_lt
  have hn : (leWord a b c d).toNat = a.toNat + 2 ^ 8 * b.toNat + 2 ^ 16 * c.toNat + 2 ^ 24 * d.toNat := by
    rw [leWord, UInt32.toNat_ofNat']
    omega
  simp only [leBytes, hn, List.cons.injEq, and_true, ← UInt8.toNat_inj, UInt8.toNat_ofNat']
  omega

theorem eq_of_readWord {bytes rest : Bytes} {n : UInt32} (h : readWord bytes = some (n, rest)) :
    bytes = leBytes n ++ rest := by
  match bytes, h with
  | a :: b :: c :: d :: rest, h =>
      simp only [readWord, Option.some.injEq, Prod.mk.injEq] at h
      obtain ⟨rfl, rfl⟩ := h
      rw [leBytes_leWord]
      rfl

theorem readWord_short {bytes : Bytes} (h : bytes.length < 4) : readWord bytes = none := by
  match bytes, h with
  | [], _ | [_], _ | [_, _], _ | [_, _, _], _ => rfl
  | _ :: _ :: _ :: _ :: _, h =>
      simp only [List.length_cons] at h
      omega

end BeaconNode.Words
