import BeaconNode.TextStream
import Mathlib.Data.List.GetD

namespace BeaconNode.Framing

open Words TextStream

/-- Any 16-bit number is a value of the kind's type. -/
abbrev FrameKind := UInt16

def controlRequest : FrameKind := 1
def controlResponse : FrameKind := 2
def gossipEnvelope : FrameKind := 3

structure Frame where
  kind : FrameKind := controlRequest
  payload : Bytes
  deriving DecidableEq

def magic : Bytes := ascii "BN"
def version : UInt8 := 1
def headerSize : Nat := 9

def appendU16 (value : UInt16) : Bytes := [UInt8.ofNat (value.toNat / 2 ^ 8), UInt8.ofNat value.toNat]

def appendU32 (value : UInt32) : Bytes :=
  [UInt8.ofNat (value.toNat / 2 ^ 24), UInt8.ofNat (value.toNat / 2 ^ 16), UInt8.ofNat (value.toNat / 2 ^ 8),
    UInt8.ofNat value.toNat]

def readU16 (bytes : Bytes) (offset : Nat) : UInt16 :=
  UInt16.ofNat (2 ^ 8 * (bytes.getD offset 0).toNat + (bytes.getD (offset + 1) 0).toNat)

def readU32 (bytes : Bytes) (offset : Nat) : UInt32 :=
  UInt32.ofNat (2 ^ 24 * (bytes.getD offset 0).toNat + 2 ^ 16 * (bytes.getD (offset + 1) 0).toNat +
    2 ^ 8 * (bytes.getD (offset + 2) 0).toNat + (bytes.getD (offset + 3) 0).toNat)

/-- The length of the payload is cut to 32 bits. -/
def encodeFrame (frame : Frame) : Bytes :=
  magic ++ [version] ++ appendU16 frame.kind ++ appendU32 (UInt32.ofNat frame.payload.length) ++ frame.payload

def decodeFrame (bytes : Bytes) : Option Frame :=
  if bytes.length < headerSize ∨ bytes.take 2 ≠ magic ∨ bytes.getD 2 0 ≠ version then none
  else
    let payloadLength := readU32 bytes 5
    if bytes.length ≠ headerSize + payloadLength.toNat then none
    else some ⟨readU16 bytes 3, bytes.drop headerSize⟩

theorem readU16_appendU16 (before after : Bytes) (value : UInt16) :
    readU16 (before ++ (appendU16 value ++ after)) before.length = value := by
  have hv := value.toNat_lt
  have hle (n : Nat) : before.length ≤ before.length + n := Nat.le_add_right _ _
  apply UInt16.toNat_inj.mp
  simp only [readU16, appendU16, List.getD_append_right _ _ _ _ (Nat.le_refl _),
    List.getD_append_right _ _ _ _ (hle _), Nat.sub_self, Nat.add_sub_cancel_left, List.cons_append,
    List.getD_cons_zero, List.getD_cons_succ, UInt16.toNat_ofNat', UInt8.toNat_ofNat']
  omega

theorem readU32_appendU32 (before after : Bytes) (value : UInt32) :
    readU32 (before ++ (appendU32 value ++ after)) before.length = value := by
  have hv := value.toNat_lt
  have hle (n : Nat) : before.length ≤ before.length + n := Nat.le_add_right _ _
  apply UInt32.toNat_inj.mp
  simp only [readU32, appendU32, List.getD_append_right _ _ _ _ (Nat.le_refl _),
    List.getD_append_right _ _ _ _ (hle _), Nat.sub_self, Nat.add_sub_cancel_left, List.cons_append,
    List.getD_cons_zero, List.getD_cons_succ, UInt32.toNat_ofNat', UInt8.toNat_ofNat']
  omega

theorem encodeFrame_length (frame : Frame) : (encodeFrame frame).length = headerSize + frame.payload.length := by
  simp only [encodeFrame, List.length_append]
  rfl

theorem encodeFrame_drop (frame : Frame) : (encodeFrame frame).drop headerSize = frame.payload := rfl

theorem readU32_header (frame : Frame) (after : Bytes) :
    readU32 ((encodeFrame frame).take headerSize ++ after) 5 = UInt32.ofNat frame.payload.length :=
  readU32_appendU32 (magic ++ [version] ++ appendU16 frame.kind) after _

theorem payloadLength_toNat {n : Nat} (h : n < 2 ^ 32) : (UInt32.ofNat n).toNat = n := by
  rw [UInt32.toNat_ofNat']
  exact Nat.mod_eq_of_lt h

/-- A frame is read back as long as its length fits the header. -/
theorem decodeFrame_encodeFrame {frame : Frame} (h : frame.payload.length < 2 ^ 32) :
    decodeFrame (encodeFrame frame) = some frame := by
  have hkind : readU16 (encodeFrame frame) 3 = frame.kind := by
    rw [encodeFrame, List.append_assoc, List.append_assoc]
    exact readU16_appendU16 (magic ++ [version]) _ frame.kind
  have hlength : readU32 (encodeFrame frame) 5 = UInt32.ofNat frame.payload.length := readU32_header frame _
  have hmagic : ¬ ((encodeFrame frame).length < headerSize ∨ (encodeFrame frame).take 2 ≠ magic ∨
      (encodeFrame frame).getD 2 0 ≠ version) := by
    rw [encodeFrame_length]
    rintro (hs | hm | hv)
    · omega
    · exact hm rfl
    · exact hv rfl
  rw [decodeFrame, if_neg hmagic]
  simp only [hlength, payloadLength_toNat h, encodeFrame_length, hkind, encodeFrame_drop, ne_eq, not_true_eq_false,
    if_false]

theorem readU16_toNat (bytes : Bytes) (offset : Nat) :
    (readU16 bytes offset).toNat = 2 ^ 8 * (bytes.getD offset 0).toNat + (bytes.getD (offset + 1) 0).toNat := by
  have ha := (bytes.getD offset 0).toNat_lt
  have hb := (bytes.getD (offset + 1) 0).toNat_lt
  rw [readU16, UInt16.toNat_ofNat']
  omega

theorem readU32_toNat (bytes : Bytes) (offset : Nat) :
    (readU32 bytes offset).toNat = 2 ^ 24 * (bytes.getD offset 0).toNat + 2 ^ 16 * (bytes.getD (offset + 1) 0).toNat +
      2 ^ 8 * (bytes.getD (offset + 2) 0).toNat + (bytes.getD (offset + 3) 0).toNat := by
  have ha := (bytes.getD offset 0).toNat_lt
  have hb := (bytes.getD (offset + 1) 0).toNat_lt
  have hc := (bytes.getD (offset + 2) 0).toNat_lt
  have hd := (bytes.getD (offset + 3) 0).toNat_lt
  rw [readU32, UInt32.toNat_ofNat']
  omega

theorem ofNat_eq_of_mod {n : Nat} {b : UInt8} (h : n % 2 ^ 8 = b.toNat) : UInt8.ofNat n = b := by
  apply UInt8.toNat_inj.mp
  rw [UInt8.toNat_ofNat']
  exact h

theorem appendU16_readU16 (bytes : Bytes) (offset : Nat) :
    appendU16 (readU16 bytes offset) = [bytes.getD offset 0, bytes.getD (offset + 1) 0] := by
  have ha := (bytes.getD offset 0).toNat_lt
  have hb := (bytes.getD (offset + 1) 0).toNat_lt
  rw [appendU16, readU16_toNat, ofNat_eq_of_mod (b := bytes.getD offset 0) (by omega),
    ofNat_eq_of_mod (b := bytes.getD (offset + 1) 0) (by omega)]

theorem appendU32_readU32 (bytes : Bytes) (offset : Nat) :
    appendU32 (readU32 bytes offset) =
      [bytes.getD offset 0, bytes.getD (offset + 1) 0, bytes.getD (offset + 2) 0, bytes.getD (offset + 3) 0] := by
  have ha := (bytes.getD offset 0).toNat_lt
  have hb := (bytes.getD (offset + 1) 0).toNat_lt
  have hc := (bytes.getD (offset + 2) 0).toNat_lt
  have hd := (bytes.getD (offset + 3) 0).toNat_lt
  rw [appendU32, readU32_toNat, ofNat_eq_of_mod (b := bytes.getD offset 0) (by omega),
    ofNat_eq_of_mod (b := bytes.getD (offset + 1) 0) (by omega),
    ofNat_eq_of_mod (b := bytes.getD (offset + 2) 0) (by omega),
    ofNat_eq_of_mod (b := bytes.getD (offset + 3) 0) (by omega)]

theorem eq_header_append_drop {bytes : Bytes} (h : headerSize ≤ bytes.length) :
    bytes = bytes.take 2 ++ [bytes.getD 2 0] ++ [bytes.getD 3 0, bytes.getD 4 0] ++
      [bytes.getD 5 0, bytes.getD 6 0, bytes.getD 7 0, bytes.getD 8 0] ++ bytes.drop headerSize := by
  match bytes, h with
  | _ :: _ :: _ :: _ :: _ :: _ :: _ :: _ :: _ :: _, _ => rfl

theorem encodeFrame_of_decodeFrame {bytes : Bytes} {frame : Frame} (h : decodeFrame bytes = some frame) :
    encodeFrame frame = bytes := by
  rw [decodeFrame] at h
  split at h
  next => cases h
  next hheader =>
    obtain ⟨hlength, hmagic, hversion⟩ : headerSize ≤ bytes.length ∧ bytes.take 2 = magic ∧
        bytes.getD 2 0 = version := by
      simpa [not_or] using hheader
    dsimp only at h
    split at h
    next => cases h
    next hsize =>
      rw [ne_eq, not_not] at hsize
      have hpayload : UInt32.ofNat (bytes.drop headerSize).length = readU32 bytes 5 := by
        rw [List.length_drop, hsize, Nat.add_sub_cancel_left, UInt32.ofNat_toNat]
      rw [← Option.some.inj h, encodeFrame, hpayload, appendU16_readU16, appendU32_readU32, ← hmagic, ← hversion]
      exact (eq_header_append_drop hlength).symm

end BeaconNode.Framing
