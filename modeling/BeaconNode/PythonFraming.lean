import BeaconNode.Framing

namespace BeaconNode.PythonFraming

open Words TextStream

/-- The SDK's frame. Its kind is any integer until it is packed. -/
structure Frame where
  kind : Int
  payload : Bytes
  deriving DecidableEq

inductive FrameError
  | structError
  | valueError (message : Bytes)
  deriving DecidableEq

def magic : Bytes := ascii "BN"
def version : UInt8 := 1
def headerSize : Nat := 9

def frameControlRequest : Int := 1
def frameControlResponse : Int := 2

def bigEndian : Nat → Nat → Bytes
  | 0, _ => []
  | size + 1, n => bigEndian size (n / 256) ++ [UInt8.ofNat n]

def ofBigEndian (bytes : Bytes) : Nat := bytes.foldl (fun n b => 256 * n + b.toNat) 0

/-- One unsigned field of a format that begins with >. A number that does not
fit raises. -/
def pack (size : Nat) (n : Int) : Except FrameError Bytes :=
  if 0 ≤ n ∧ n < 256 ^ size then .ok (bigEndian size n.toNat) else .error .structError

def packHI (kind length : Int) : Except FrameError Bytes := do
  let high ← pack 2 kind
  let low ← pack 4 length
  pure (high ++ low)

def unpackHI (bytes : Bytes) : Nat × Nat := (ofBigEndian (bytes.take 2), ofBigEndian (bytes.drop 2))

def encodeFrame (frame : Frame) : Except FrameError Bytes := do
  let header ← packHI frame.kind frame.payload.length
  pure (magic ++ [version] ++ header ++ frame.payload)

def decodeFrame (data : Bytes) : Except FrameError Frame :=
  if data.length < headerSize then .error (.valueError (ascii "frame is too short"))
  else if data.take 2 ≠ magic then .error (.valueError (ascii "invalid frame magic"))
  else if data.getD 2 0 ≠ version then .error (.valueError (ascii "unsupported frame version"))
  else
    let (kind, length) := unpackHI ((data.drop 3).take 6)
    if data.length ≠ headerSize + length then .error (.valueError (ascii "frame length mismatch"))
    else .ok ⟨kind, data.drop headerSize⟩

def expectedFrameLength (header : Bytes) : Except FrameError Nat :=
  if header.length ≠ headerSize then .error (.valueError (ascii "header must be exactly 9 bytes"))
  else if header.take 2 ≠ magic then .error (.valueError (ascii "invalid frame magic"))
  else
    let (_, length) := unpackHI ((header.drop 3).take 6)
    .ok (headerSize + length)

def ofFrame (frame : Framing.Frame) : Frame := ⟨frame.kind.toNat, frame.payload⟩

theorem pack_kind (kind : UInt16) : pack 2 kind.toNat = .ok (Framing.appendU16 kind) := by
  have hk := kind.toNat_lt
  have hfits : (0 : Int) ≤ kind.toNat ∧ (kind.toNat : Int) < 256 ^ 2 := by omega
  rw [pack, if_pos hfits]
  rfl

theorem pack_length {n : Nat} (h : n < 2 ^ 32) : pack 4 n = .ok (Framing.appendU32 (UInt32.ofNat n)) := by
  have hfits : (0 : Int) ≤ n ∧ (n : Int) < 256 ^ 4 := by omega
  rw [pack, if_pos hfits, Framing.appendU32, Framing.payloadLength_toNat h, Int.toNat_natCast]
  simp only [bigEndian, List.nil_append, List.cons_append, Nat.div_div_eq_div_mul]
  rfl

theorem encodeFrame_ofFrame {frame : Framing.Frame} (h : frame.payload.length < 2 ^ 32) :
    encodeFrame (ofFrame frame) = .ok (Framing.encodeFrame frame) := by
  have hheader : packHI (ofFrame frame).kind (ofFrame frame).payload.length =
      .ok (Framing.appendU16 frame.kind ++ Framing.appendU32 (UInt32.ofNat frame.payload.length)) := by
    simp only [packHI, ofFrame, pack_kind, pack_length h]
    rfl
  rw [encodeFrame, hheader, Framing.encodeFrame, List.append_assoc (Framing.magic ++ [Framing.version])]
  rfl

theorem unpackHI_header {data : Bytes} (h : headerSize ≤ data.length) :
    unpackHI ((data.drop 3).take 6) = ((Framing.readU16 data 3).toNat, (Framing.readU32 data 5).toNat) := by
  rw [Framing.readU16_toNat, Framing.readU32_toNat]
  match data, h with
  | _ :: _ :: _ :: _ :: _ :: _ :: _ :: _ :: _ :: _, _ =>
      simp only [unpackHI, ofBigEndian, List.drop_succ_cons, List.drop_zero, List.take_succ_cons, List.take_zero,
        List.foldl_cons, List.foldl_nil, List.getD_cons_zero, List.getD_cons_succ, Prod.mk.injEq]
      constructor
      · omega
      · omega

theorem decodeFrame_toOption (data : Bytes) :
    (decodeFrame data).toOption = (Framing.decodeFrame data).map ofFrame := by
  have hconstants : headerSize = Framing.headerSize ∧ magic = Framing.magic ∧ version = Framing.version :=
    ⟨rfl, rfl, rfl⟩
  obtain ⟨hs, hm, hv⟩ := hconstants
  by_cases hlength : data.length < Framing.headerSize
  · simp [decodeFrame, Framing.decodeFrame, hs, hlength, Except.toOption]
  · by_cases hmagic : data.take 2 = Framing.magic
    · by_cases hversion : data.getD 2 0 = Framing.version
      · have hunpack := unpackHI_header (hs ▸ not_lt.mp hlength)
        simp only [decodeFrame, Framing.decodeFrame, hs, hm, hv, hlength, hmagic, hversion, hunpack, ne_eq,
          not_true_eq_false, or_self, if_false]
        by_cases hsize : data.length = Framing.headerSize + (Framing.readU32 data 5).toNat
        · simp [hsize, Except.toOption, ofFrame]
        · simp [hsize, Except.toOption]
      · simp only [decodeFrame, Framing.decodeFrame, hs, hm, hv, hlength, hmagic, hversion, ne_eq,
          not_true_eq_false, not_false_eq_true, or_true, if_true, if_false]
        rfl
    · simp only [decodeFrame, Framing.decodeFrame, hs, hm, hlength, hmagic, ne_eq, not_false_eq_true, true_or,
        or_true, if_true, if_false]
      rfl

/-- The two codecs are each other's inverse, and one codec in two languages. -/
theorem frame_codecs_inverse_and_agree :
    (∀ frame : Framing.Frame, frame.payload.length < 2 ^ 32 →
      Framing.decodeFrame (Framing.encodeFrame frame) = some frame ∧
        encodeFrame (ofFrame frame) = .ok (Framing.encodeFrame frame)) ∧
    ∀ bytes : Bytes, (∀ frame, Framing.decodeFrame bytes = some frame → Framing.encodeFrame frame = bytes) ∧
      (decodeFrame bytes).toOption = (Framing.decodeFrame bytes).map ofFrame := by
  refine ⟨fun frame h => ⟨Framing.decodeFrame_encodeFrame h, encodeFrame_ofFrame h⟩, fun bytes => ⟨?_, ?_⟩⟩
  · intro frame h
    exact Framing.encodeFrame_of_decodeFrame h
  · exact decodeFrame_toOption bytes

theorem frame_codecs_agree_request :
    Framing.decodeFrame (Framing.encodeFrame ⟨Framing.controlRequest, [10, 0]⟩) =
        some ⟨Framing.controlRequest, [10, 0]⟩ ∧
      encodeFrame ⟨frameControlRequest, [10, 0]⟩ = .ok [66, 78, 1, 0, 1, 0, 0, 0, 2, 10, 0] := by
  exact frame_codecs_inverse_and_agree.1 ⟨Framing.controlRequest, [10, 0]⟩ (by decide)

theorem expectedFrameLength_header {frame : Framing.Frame} (h : frame.payload.length < 2 ^ 32) :
    expectedFrameLength ((Framing.encodeFrame frame).take headerSize) = .ok (Framing.encodeFrame frame).length := by
  have hsize : ((Framing.encodeFrame frame).take headerSize).length = headerSize := by
    rw [List.length_take, Framing.encodeFrame_length]
    exact Nat.min_eq_left (Nat.le_add_right _ _)
  have hmagic : ((Framing.encodeFrame frame).take headerSize).take 2 = magic := rfl
  have hread : Framing.readU32 ((Framing.encodeFrame frame).take headerSize) 5 =
      UInt32.ofNat frame.payload.length := Framing.readU32_header frame []
  have hunpack := unpackHI_header hsize.ge
  rw [hread, Framing.payloadLength_toNat h] at hunpack
  rw [expectedFrameLength, if_neg (not_not.mpr hsize), if_neg (not_not.mpr hmagic), hunpack,
    Framing.encodeFrame_length]
  rfl

end BeaconNode.PythonFraming
