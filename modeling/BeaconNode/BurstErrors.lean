import BeaconNode.Persistence
import BeaconNode.ShiftRegister

namespace BeaconNode.BurstErrors

open Words TextStream Persistence ShiftRegister

/-- The polynomial of crcBit. -/
def polynomial : BitVec 32 := 0xEDB88320

theorem and_one_ne_zero (crc : UInt32) : crc &&& 1 ≠ 0 ↔ crc.toBitVec.getLsbD 0 = true := by
  have hmod : (crc &&& 1).toNat = crc.toNat % 2 := by
    rw [UInt32.toNat_and]
    exact Nat.and_one_is_mod _
  have hbit : crc.toBitVec.getLsbD 0 = decide (crc.toNat % 2 = 1) := Nat.testBit_zero _
  rw [hbit, decide_eq_true_iff, ← UInt32.toNat_inj.ne, hmod]
  change crc.toNat % 2 ≠ 0 ↔ _
  omega

theorem crcBit_toBitVec (crc : UInt32) : (crcBit crc).toBitVec = shift polynomial crc.toBitVec := by
  by_cases h : crc &&& 1 ≠ 0
  · rw [crcBit, if_pos h, shift, if_pos ((and_one_ne_zero crc).mp h)]
    rfl
  · rw [crcBit, if_neg h, shift, if_neg (fun hl => h ((and_one_ne_zero crc).mpr hl))]
    rfl

theorem crcByte_toBitVec (crc : UInt32) (c : UInt8) :
    (crcByte crc c).toBitVec = feed polynomial 8 crc.toBitVec c.toNat := by
  have hiterate : Function.Semiconj UInt32.toBitVec (crcBit^[8]) ((shift polynomial)^[8]) :=
    Function.Semiconj.iterate_right crcBit_toBitVec 8
  have hbyte : c.toUInt32.toBitVec = BitVec.ofNat 32 c.toNat := by
    apply BitVec.eq_of_toNat_eq
    rw [UInt32.toNat_toBitVec, UInt8.toNat_toUInt32, BitVec.toNat_ofNat, Nat.mod_eq_of_lt]
    exact lt_trans c.toNat_lt (by decide)
  rw [crcByte, hiterate, UInt32.toBitVec_xor, hbyte, feed]

theorem foldl_crcByte_toBitVec (bytes : Bytes) (crc : UInt32) :
    (bytes.foldl crcByte crc).toBitVec = (bytes.map UInt8.toNat).foldl (feed polynomial 8) crc.toBitVec := by
  induction bytes generalizing crc with
  | nil => rfl
  | cons c cs ih => rw [List.foldl_cons, ih, crcByte_toBitVec, List.map_cons, List.foldl_cons]

theorem computeCrc32_inj {data other : Bytes} :
    computeCrc32 data = computeCrc32 other ↔
      (data.map UInt8.toNat).foldl (feed polynomial 8) (BitVec.allOnes 32) =
        (other.map UInt8.toNat).foldl (feed polynomial 8) (BitVec.allOnes 32) := by
  have hstart : (0xFFFFFFFF : UInt32).toBitVec = BitVec.allOnes 32 := by decide
  rw [computeCrc32, computeCrc32, UInt32.not_inj, ← UInt32.toBitVec_inj, foldl_crcByte_toBitVec,
    foldl_crcByte_toBitVec, hstart]

/-- A checksum tells apart any two texts that differ in four bytes in a row,
and recovery then drops the record. -/
theorem burst_detected (before window damaged rest : Bytes) (hlength : window.length = damaged.length)
    (hfour : window.length ≤ 4) (hne : window ≠ damaged) :
    computeCrc32 (before ++ window ++ rest) ≠ computeCrc32 (before ++ damaged ++ rest) ∧
      ∀ codec : EntryCodec,
        checkedEntry codec (computeCrc32 (before ++ window ++ rest)) (before ++ damaged ++ rest) = none := by
  have hmsb : polynomial.msb = true := by decide
  have hdiffers : computeCrc32 (before ++ window ++ rest) ≠ computeCrc32 (before ++ damaged ++ rest) := by
    intro h
    rw [computeCrc32_inj] at h
    simp only [List.map_append, List.foldl_append] at h
    -- the bytes behind the window do not bring two registers together
    have hwindow := foldl_feed_injective hmsb (rest.map UInt8.toNat) h
    have hbytes {bytes : Bytes} : ∀ d ∈ bytes.map UInt8.toNat, d < 2 ^ 8 := by
      intro d hd
      obtain ⟨c, -, rfl⟩ := List.mem_map.mp hd
      exact c.toNat_lt
    have hdigits : window.map UInt8.toNat = damaged.map UInt8.toNat := by
      refine eq_of_foldl_feed hmsb (by decide) ?_ hbytes hbytes ?_ hwindow
      · simpa using hlength
      · rw [List.length_map]
        omega
    exact hne ((List.map_injective_iff.mpr (fun _ _ => UInt8.toNat_inj.mp)) hdigits)
  exact ⟨hdiffers, fun codec => by rw [checkedEntry, if_pos hdiffers.symm]⟩

theorem burst_detected_flipped_bit :
    computeCrc32 (ascii "ab" ++ ascii "c" ++ ascii "d") ≠ computeCrc32 (ascii "ab" ++ ascii "b" ++ ascii "d") :=
  (burst_detected (ascii "ab") (ascii "c") (ascii "b") (ascii "d") rfl (by decide) (by decide)).1

end BeaconNode.BurstErrors
