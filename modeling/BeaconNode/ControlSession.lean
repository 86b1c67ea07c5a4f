import BeaconNode.ControlReplies
import BeaconNode.PythonFraming
import BeaconNode.WalReplay

namespace BeaconNode.ControlSession

open Words TextStream Records Registry LineProtocol ProtobufControl Framing ControlReplies Persistence WalReplay

/-- What the peer sends before it closes its side, in the pieces in which it
arrives. -/
abbrev Socket := List Bytes

/-- A receive with message_peek: what has arrived so far, up to the size of
the buffer. The peer that closes without a byte makes it throw. -/
def peek (size : Nat) : Socket → Option Bytes
  | [] => none
  | first :: _ => some (first.take size)

def isBinaryFrameHeader (header : Bytes) : Bool := header.getD 0 0 = 66 && header.getD 1 0 = 78

inductive SessionInput
  | frame (frameBytes : Bytes)
  | line (text : Bytes)
  | failed
  deriving DecidableEq

/-- The blocking reads take the bytes from the stream however they were cut;
they throw when it ends before they are done. -/
def readFrame (header stream : Bytes) : SessionInput :=
  match readBytes header.length stream with
  | none => .failed
  | some (frameBytes, rest) =>
      match readBytes (readU32 header 5).toNat rest with
      | none => .failed
      | some (payload, _) => .frame (frameBytes ++ payload)

def readLine (stream : Bytes) : SessionInput :=
  if newline ∈ stream then .line (firstLine stream) else .failed

/-- Without protobuf the engine answers a frame before it has read it. -/
def sessionInput (protobuf : Bool) (socket : Socket) : SessionInput :=
  match peek headerSize socket with
  | none => .failed
  | some header =>
      if headerSize ≤ header.length && isBinaryFrameHeader header then
        if protobuf then readFrame header socket.flatten else .frame header
      else readLine socket.flatten

/-- The node after a session and what was written to the socket. Without a
codec the engine has been built without protobuf. -/
def serveSession (platform : Platform) (codec : Option ControlCodec) (protocol : ControlProtocol) (now : TimePoint)
    (node : Node) (socket : Socket) : Node × Bytes :=
  match codec, sessionInput codec.isSome socket with
  | some codec, .frame frameBytes => handleControlFrame platform codec protocol now node frameBytes
  | none, .frame _ => (node, ascii "ERR message=protobuf_control_disabled\n")
  | _, .line text => handleLine platform protocol now node text
  | _, .failed => (node, [])

theorem sessionInput_short {first : Bytes} {rest : Socket} (protobuf : Bool) (h : first.length < headerSize) :
    sessionInput protobuf (first :: rest) = readLine (first :: rest).flatten := by
  have hshort : ¬ headerSize ≤ (first.take headerSize).length := by
    rw [List.length_take]
    omega
  simp only [sessionInput, peek, hshort, decide_false, Bool.false_and, Bool.false_eq_true, if_false]

theorem sessionInput_long {frame : Frame} {first : Bytes} {rest : Socket}
    (hs : (first :: rest).flatten = encodeFrame frame) (h : headerSize ≤ first.length) :
    sessionInput true (first :: rest) =
      .frame ((encodeFrame frame).take headerSize ++
        frame.payload.take (UInt32.ofNat frame.payload.length).toNat) := by
  have hfirst : first.take headerSize = (encodeFrame frame).take headerSize := by
    rw [← hs, List.flatten_cons, List.take_append_of_le_length h]
  have hsize : ((encodeFrame frame).take headerSize).length = headerSize := by
    rw [List.length_take, encodeFrame_length]
    omega
  have hbinary : isBinaryFrameHeader ((encodeFrame frame).take headerSize) = true := rfl
  have hlength : readU32 ((encodeFrame frame).take headerSize) 5 = UInt32.ofNat frame.payload.length :=
    readU32_header frame []
  have hheader : readBytes headerSize (encodeFrame frame) =
      some ((encodeFrame frame).take headerSize, frame.payload) := by
    rw [readBytes, if_pos (by rw [encodeFrame_length]; omega), encodeFrame_drop]
  have hpayload : readBytes (UInt32.ofNat frame.payload.length).toNat frame.payload =
      some (frame.payload.take (UInt32.ofNat frame.payload.length).toNat,
        frame.payload.drop (UInt32.ofNat frame.payload.length).toNat) := by
    rw [readBytes, if_pos]
    rw [UInt32.toNat_ofNat']
    exact Nat.mod_le _ _
  simp only [sessionInput, peek, hfirst, hsize, hbinary, hs, readFrame, hlength, hheader, hpayload, le_refl,
    decide_true, Bool.true_and, if_true]

theorem readLine_ne_frame (stream frameBytes : Bytes) : readLine stream ≠ .frame frameBytes := by
  rw [readLine]
  split
  · simp
  · simp

theorem take_cut_eq_iff (payload : Bytes) :
    payload.take (UInt32.ofNat payload.length).toNat = payload ↔ payload.length < 2 ^ 32 := by
  rw [List.take_eq_self_iff, UInt32.toNat_ofNat']
  omega

/-- A frame reaches the frame handler as it was sent exactly when its first
piece holds the whole header and its length fits the header. -/
theorem session_dispatch_iff (frame : Frame) (socket : Socket) (hs : socket.flatten = encodeFrame frame) :
    sessionInput true socket = .frame (encodeFrame frame) ↔
      headerSize ≤ (socket.headD []).length ∧ frame.payload.length < 2 ^ 32 := by
  cases socket with
  | nil =>
      have hl := congrArg List.length hs
      rw [encodeFrame_length, List.flatten_nil, List.length_nil, headerSize] at hl
      omega
  | cons first rest =>
      by_cases hfirst : headerSize ≤ first.length
      · have hwhole : encodeFrame frame = (encodeFrame frame).take headerSize ++ frame.payload :=
          (List.take_append_drop headerSize (encodeFrame frame)).symm
        rw [sessionInput_long hs hfirst, List.headD_cons, ← take_cut_eq_iff]
        simp only [hfirst, true_and, SessionInput.frame.injEq]
        constructor
        · intro he
          exact List.append_cancel_left (he.trans hwhole)
        · intro he
          rw [he, ← hwhole]
      · rw [sessionInput_short true (not_le.mp hfirst)]
        constructor
        · intro he
          exact absurd he (readLine_ne_frame _ _)
        · rintro ⟨hle, -⟩
          exact absurd hle hfirst

def emptyRegistration : Frame := ⟨controlRequest, [10, 0]⟩

theorem session_dispatch_emptyRegistration :
    sessionInput true [[66, 78, 1, 0, 1, 0, 0, 0, 2], [10], [0]] = .frame (encodeFrame emptyRegistration) :=
  (session_dispatch_iff emptyRegistration _ (by decide)).mpr (by decide)

def shortFirst : Socket := [[66, 78], [1, 0, 1, 0, 0, 0, 2, 10, 0]]

/-- The frame is taken for a line that ends at its tenth byte. -/
theorem shortFirst_read_as_line :
    (∀ piece ∈ shortFirst, piece ≠ []) ∧ shortFirst.flatten = encodeFrame emptyRegistration ∧
      sessionInput true shortFirst = .line [66, 78, 1, 0, 1, 0, 0, 0, 2] ∧
        sessionInput true shortFirst ≠ .frame (encodeFrame emptyRegistration) := by
  decide

/-- The SDK's loop: each turn receives what has arrived, at most what is
still missing. An end of the stream before the last byte raises. -/
def readExact : Nat → Socket → Option (Bytes × Socket)
  | 0, socket => some ([], socket)
  | _ + 1, [] => none
  | remaining + 1, first :: rest =>
      if remaining + 1 < first.length then
        some (first.take (remaining + 1), first.drop (remaining + 1) :: rest)
      else (readExact (remaining + 1 - first.length) rest).map (fun p => (first ++ p.1, p.2))

theorem readExact_flatten (length : Nat) (socket : Socket) :
    (readExact length socket).map (fun p => (p.1, p.2.flatten)) = readBytes length socket.flatten := by
  induction socket generalizing length with
  | nil =>
      cases length with
      | zero => rfl
      | succ n => rfl
  | cons first rest ih =>
      cases length with
      | zero => simp [readExact, readBytes]
      | succ n =>
          rw [readExact, List.flatten_cons]
          by_cases hlt : n + 1 < first.length
          · rw [if_pos hlt, readBytes, if_pos (by rw [List.length_append]; omega),
              List.take_append_of_le_length hlt.le, List.drop_append_of_le_length hlt.le]
            rfl
          · have hrest := ih (n + 1 - first.length)
            rw [if_neg hlt, Option.map_map]
            rw [readBytes] at hrest ⊢
            by_cases hle : n + 1 - first.length ≤ rest.flatten.length
            · rw [if_pos hle] at hrest
              rw [if_pos (by rw [List.length_append]; omega), List.take_append, List.drop_append,
                List.take_of_length_le (not_lt.mp hlt), List.drop_of_length_le (not_lt.mp hlt), List.nil_append]
              obtain ⟨p, hp, he⟩ := Option.map_eq_some_iff.mp hrest
              obtain ⟨h1, h2⟩ := Prod.mk.inj he
              rw [hp, Option.map_some, Function.comp_apply, h1, h2]
            · rw [if_neg hle] at hrest
              rw [if_neg (by rw [List.length_append]; omega), Option.map_eq_none_iff.mp hrest]
              rfl

theorem readExact_append {bytes after : Bytes} {socket : Socket} (h : socket.flatten = bytes ++ after) :
    ∃ rest, readExact bytes.length socket = some (bytes, rest) ∧ rest.flatten = after := by
  have hread := readExact_flatten bytes.length socket
  rw [h, readBytes_append] at hread
  obtain ⟨⟨data, rest⟩, hp, he⟩ := Option.map_eq_some_iff.mp hread
  obtain ⟨rfl, rfl⟩ := Prod.mk.inj he
  exact ⟨rest, hp, rfl⟩

inductive ReplyError
  | closed
  | frame (error : PythonFraming.FrameError)
  | unexpectedFrame
  deriving DecidableEq

/-- The reading half of the SDK's round trip, up to the payload. -/
def readReply (socket : Socket) : Except ReplyError Bytes :=
  match readExact PythonFraming.headerSize socket with
  | none => .error .closed
  | some (header, socket) =>
      match PythonFraming.expectedFrameLength header with
      | .error error => .error (.frame error)
      | .ok totalLength =>
          match readExact (totalLength - PythonFraming.headerSize) socket with
          | none => .error .closed
          | some (data, _) =>
              match PythonFraming.decodeFrame (header ++ data) with
              | .error error => .error (.frame error)
              | .ok frame =>
                  if frame.kind ≠ PythonFraming.frameControlResponse then .error .unexpectedFrame
                  else .ok frame.payload

/-- The SDK, which asks for the missing bytes until it has them, reads an
answer however it is cut. -/
theorem readReply_encodeFrame {payload : Bytes} (h : payload.length < 2 ^ 32) {socket : Socket}
    (hs : socket.flatten = encodeFrame ⟨controlResponse, payload⟩) : readReply socket = .ok payload := by
  have hwhole : encodeFrame ⟨controlResponse, payload⟩ =
      (encodeFrame ⟨controlResponse, payload⟩).take headerSize ++ payload :=
    (List.take_append_drop headerSize _).symm
  have hsize : ((encodeFrame ⟨controlResponse, payload⟩).take headerSize).length = PythonFraming.headerSize := by
    rw [List.length_take, encodeFrame_length]
    exact Nat.min_eq_left (Nat.le_add_right _ _)
  obtain ⟨afterHeader, hheader, hrest⟩ := readExact_append (hs.trans hwhole)
  obtain ⟨afterPayload, hpayload, -⟩ := readExact_append (hrest.trans (List.append_nil payload).symm)
  have hexpected : PythonFraming.expectedFrameLength ((encodeFrame ⟨controlResponse, payload⟩).take headerSize) =
      .ok (encodeFrame ⟨controlResponse, payload⟩).length := PythonFraming.expectedFrameLength_header h
  have hdecode : PythonFraming.decodeFrame (encodeFrame ⟨controlResponse, payload⟩) =
      .ok ⟨PythonFraming.frameControlResponse, payload⟩ := by
    have hoption := PythonFraming.decodeFrame_toOption (encodeFrame ⟨controlResponse, payload⟩)
    rw [decodeFrame_encodeFrame h] at hoption
    cases hd : PythonFraming.decodeFrame (encodeFrame ⟨controlResponse, payload⟩) with
    | error error =>
        rw [hd] at hoption
        cases hoption
    | ok frame =>
        rw [hd] at hoption
        rw [Option.some.inj hoption]
        rfl
  rw [hsize] at hheader
  have hmissing : (encodeFrame ⟨controlResponse, payload⟩).length - PythonFraming.headerSize = payload.length := by
    rw [encodeFrame_length]
    exact Nat.add_sub_cancel_left _ _
  simp only [readReply, hheader, hexpected, hmissing, hpayload, ← hwhole, hdecode, ne_eq, not_true_eq_false, if_false]

end BeaconNode.ControlSession
