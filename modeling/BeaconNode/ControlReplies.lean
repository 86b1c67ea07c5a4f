import BeaconNode.CanonicalPayload
import BeaconNode.Framing
import BeaconNode.ProtobufControl

namespace BeaconNode.ControlReplies

open Words TextStream Records Crypto Identity Registry KeyedList LineProtocol ProtobufControl Framing CanonicalPayload

def invalidFrameResponse : ControlResponse := { ok := false, message := ascii "invalid_control_frame" }

def handleControlFrame (platform : Platform) (codec : ControlCodec) (protocol : ControlProtocol) (now : TimePoint)
    (node : Node) (frameBytes : Bytes) : Node × Bytes :=
  let invalid := match codec.serializeResponse invalidFrameResponse with
    | none => (node, [])
    | some serialized => (node, encodeFrame ⟨controlResponse, serialized⟩)
  match decodeFrame frameBytes with
  | none => invalid
  | some frame =>
      if frame.kind ≠ controlRequest then invalid
      else
        let (node, payload) := handleControlRequestPayload platform codec protocol now node frame.payload
        (node, encodeFrame ⟨controlResponse, payload⟩)

def payloadResponse (platform : Platform) (codec : ControlCodec) (protocol : ControlProtocol) (now : TimePoint)
    (node : Node) (payload : Bytes) : ControlResponse :=
  (handleRequest platform protocol now node (codec.parseRequest payload)).2

def frameResponse (platform : Platform) (codec : ControlCodec) (protocol : ControlProtocol) (now : TimePoint)
    (node : Node) (frameBytes : Bytes) : ControlResponse :=
  match decodeFrame frameBytes with
  | none => invalidFrameResponse
  | some frame =>
      if frame.kind ≠ controlRequest then invalidFrameResponse
      else payloadResponse platform codec protocol now node frame.payload

variable {platform : Platform} {codec : ControlCodec} {protocol : ControlProtocol} {now : TimePoint} {node : Node}

theorem handleControlFrame_reply {frameBytes serialized : Bytes}
    (h : codec.serializeResponse (frameResponse platform codec protocol now node frameBytes) = some serialized) :
    (handleControlFrame platform codec protocol now node frameBytes).2 =
      encodeFrame ⟨controlResponse, serialized⟩ := by
  simp only [frameResponse] at h
  simp only [handleControlFrame]
  cases hd : decodeFrame frameBytes with
  | none =>
      simp only [hd] at h
      simp only [h]
  | some frame =>
      simp only [hd] at h ⊢
      split at h
      next hk => simp only [if_pos hk, h]
      next hk =>
        simp only [payloadResponse] at h
        simp only [if_neg hk, handleControlRequestPayload, h, Option.getD_some]

theorem handleHeartbeat_refused {lifecycle : LifecycleConfig} {agentId : Bytes} {revision : UInt64}
    (h : (handleHeartbeat lifecycle now node agentId revision).2 = false) :
    (handleHeartbeat lifecycle now node agentId revision).1 = node := by
  simp only [handleHeartbeat, AgentRegistry.refreshHeartbeat] at h ⊢
  cases hr : refreshRecords node.registry.records agentId (now + milliseconds lifecycle.heartbeatTtl) revision with
  | none => rfl
  | some records => simp [hr] at h

/-- The callback has been called once more, with the record that is stored
now. -/
def StoredAndLogged (before after : Node) (record : AgentRecord) : Prop :=
  after.registry.onUpsert = before.registry.onUpsert ++ [record] ∧
    after.registry.find record.agentId = some record

theorem acceptRecord_stored (sodium : Option Verifier) (node : Node) (record : AgentRecord) :
    StoredAndLogged node (acceptRecord sodium node record) record := by
  refine ⟨rfl, ?_⟩
  simp only [acceptRecord, AgentRegistry.find, findRecord_storeRecord, if_true]

theorem handleLine_err {line : Bytes}
    (h : startsWith (handleLine platform protocol now node line).2 (ascii "ERR") = true) :
    (handleLine platform protocol now node line).1 = node := by
  have hsubmit (record : AgentRecord) (done : Bytes)
      (h : startsWith (submitRecord platform.sodium protocol.trust node record done).2 (ascii "ERR") = true) :
      (submitRecord platform.sodium protocol.trust node record done).1 = node := by
    rw [submitRecord_eq] at h ⊢
    split at h
    · cases h
    next ha => rw [if_neg ha]
  simp only [handleLine] at h ⊢
  split at h
  next he => rw [if_pos he]
  next he =>
    rw [if_neg he]
    cases ha : (parseCommand protocol.lifecycle now line).action with
    | register | merge =>
        simp only [ha] at h ⊢
        exact hsubmit _ _ h
    | heartbeat =>
        simp only [ha] at h ⊢
        apply handleHeartbeat_refused
        by_contra hok
        rw [Bool.not_eq_false] at hok
        rw [if_pos hok] at h
        cases h
    | list | stats | syncPull | unknown => rfl

theorem handleLine_query {line : Bytes} (h : (parseCommand protocol.lifecycle now line).action = .list ∨
      (parseCommand protocol.lifecycle now line).action = .stats ∨
        (parseCommand protocol.lifecycle now line).action = .syncPull) :
    (handleLine platform protocol now node line).1 = node := by
  have ho : operation (parseCommand protocol.lifecycle now line) = .query := by
    simp only [operation]
    split
    · rfl
    · rcases h with h | h | h
      · rw [h]
      · rw [h]
      · rw [h]
  rw [handleLine_node, ho]
  rfl

theorem handleLine_submit (platform : Platform) (node : Node) {line : Bytes}
    (h : SubmitsRecord (parseCommand protocol.lifecycle now line)) :
    ∃ done, handleLine platform protocol now node line =
      submitRecord platform.sodium protocol.trust node (parseCommand protocol.lifecycle now line).registration
        done := by
  obtain ⟨he, ha | ha⟩ := h
  · exact ⟨ascii "registered", by simp [handleLine, he, ha]⟩
  · exact ⟨ascii "merged", by simp [handleLine, he, ha]⟩

theorem handleLine_accepted {line : Bytes} (h : SubmitsRecord (parseCommand protocol.lifecycle now line))
    (hok : startsWith (handleLine platform protocol now node line).2 (ascii "OK") = true) :
    StoredAndLogged node (handleLine platform protocol now node line).1
      (parseCommand protocol.lifecycle now line).registration := by
  obtain ⟨done, hl⟩ := handleLine_submit platform node h
  rw [hl, submitRecord_eq] at hok ⊢
  split at hok
  next ha =>
    rw [if_pos ha]
    exact acceptRecord_stored _ _ _
  next => cases hok

theorem handleRequest_refused {request : Option ControlRequest}
    (h : (handleRequest platform protocol now node request).2.ok = false) :
    (handleRequest platform protocol now node request).1 = node := by
  have hsubmit (proto : AgentRegistration) (done : Bytes)
      (h : (submitProto platform.sodium protocol now node proto done).2.ok = false) :
      (submitProto platform.sodium protocol now node proto done).1 = node := by
    rw [submitProto_eq] at h ⊢
    dsimp only at h ⊢
    split at h
    next he => rw [if_pos he]
    next he =>
      rw [if_neg he]
      split at h
      · cases h
      next ha => rw [if_neg ha]
  cases request with
  | none => rfl
  | some request =>
      cases request with
      | registerAgent proto | syncMerge proto => exact hsubmit proto _ h
      | heartbeat agentId revision => exact handleHeartbeat_refused h
      | listAgents | syncPull | stats | empty => rfl

def ReadOnly : ControlRequest → Prop
  | .listAgents | .syncPull _ _ | .stats => True
  | .registerAgent _ | .heartbeat _ _ | .syncMerge _ | .empty => False

theorem handleRequest_query {request : ControlRequest} (h : ReadOnly request) :
    (handleRequest platform protocol now node (some request)).1 = node := by
  cases request with
  | listAgents | syncPull | stats => rfl
  | registerAgent | heartbeat | syncMerge | empty => exact h.elim

theorem submitProto_accepted {proto : AgentRegistration} {done : Bytes}
    (h : (submitProto platform.sodium protocol now node proto done).2.ok = true) :
    StoredAndLogged node (submitProto platform.sodium protocol now node proto done).1
      (fromProto protocol.lifecycle now proto) := by
  rw [submitProto_eq] at h ⊢
  dsimp only at h ⊢
  split at h
  · cases h
  next he =>
    rw [if_neg he]
    split at h
    next ha =>
      rw [if_pos ha]
      exact acceptRecord_stored platform.sodium node _
    · cases h

/-- How the state of a node goes with its replies, on both transports. The
node's state is the registry, the calls made to its callback and the trust
store. -/
structure StateFollowsReply (platform : Platform) (codec : ControlCodec) (protocol : ControlProtocol)
    (now : TimePoint) (node : Node) : Prop where
  line_err : ∀ line, startsWith (handleLine platform protocol now node line).2 (ascii "ERR") = true →
    (handleLine platform protocol now node line).1 = node
  line_query : ∀ line, (parseCommand protocol.lifecycle now line).action = .list ∨
      (parseCommand protocol.lifecycle now line).action = .stats ∨
        (parseCommand protocol.lifecycle now line).action = .syncPull →
    (handleLine platform protocol now node line).1 = node
  line_accepted : ∀ line, SubmitsRecord (parseCommand protocol.lifecycle now line) →
    startsWith (handleLine platform protocol now node line).2 (ascii "OK") = true →
      StoredAndLogged node (handleLine platform protocol now node line).1
        (parseCommand protocol.lifecycle now line).registration
  payload_reply : ∀ payload, (handleControlRequestPayload platform codec protocol now node payload).2 =
    (codec.serializeResponse (payloadResponse platform codec protocol now node payload)).getD []
  payload_refused : ∀ payload, (payloadResponse platform codec protocol now node payload).ok = false →
    (handleControlRequestPayload platform codec protocol now node payload).1 = node
  payload_query : ∀ payload request, codec.parseRequest payload = some request → ReadOnly request →
    (handleControlRequestPayload platform codec protocol now node payload).1 = node
  payload_accepted : ∀ payload proto,
    codec.parseRequest payload = some (.registerAgent proto) ∨ codec.parseRequest payload = some (.syncMerge proto) →
      (payloadResponse platform codec protocol now node payload).ok = true →
        StoredAndLogged node (handleControlRequestPayload platform codec protocol now node payload).1
          (fromProto protocol.lifecycle now proto)
  frame_reply : ∀ frameBytes serialized,
    codec.serializeResponse (frameResponse platform codec protocol now node frameBytes) = some serialized →
      (handleControlFrame platform codec protocol now node frameBytes).2 = encodeFrame ⟨controlResponse, serialized⟩
  frame_refused : ∀ frameBytes, (frameResponse platform codec protocol now node frameBytes).ok = false →
    (handleControlFrame platform codec protocol now node frameBytes).1 = node
  frame_request : ∀ frameBytes payload, decodeFrame frameBytes = some ⟨controlRequest, payload⟩ →
    (handleControlFrame platform codec protocol now node frameBytes).1 =
      (handleControlRequestPayload platform codec protocol now node payload).1

theorem handleControlFrame_refused {frameBytes : Bytes}
    (h : (frameResponse platform codec protocol now node frameBytes).ok = false) :
    (handleControlFrame platform codec protocol now node frameBytes).1 = node := by
  have hinvalid : (match codec.serializeResponse invalidFrameResponse with
      | none => (node, [])
      | some serialized => (node, encodeFrame ⟨controlResponse, serialized⟩)).1 = node := by
    cases codec.serializeResponse invalidFrameResponse with
    | none => rfl
    | some serialized => rfl
  simp only [frameResponse] at h
  simp only [handleControlFrame]
  cases hd : decodeFrame frameBytes with
  | none => exact hinvalid
  | some frame =>
      simp only [hd] at h ⊢
      split at h
      next hk =>
        rw [if_pos hk]
        exact hinvalid
      next hk =>
        rw [if_neg hk]
        exact handleRequest_refused h

theorem state_follows_reply (platform : Platform) (codec : ControlCodec) (protocol : ControlProtocol)
    (now : TimePoint) (node : Node) : StateFollowsReply platform codec protocol now node where
  line_err line h := handleLine_err h
  line_query line h := handleLine_query h
  line_accepted line h hok := handleLine_accepted h hok
  payload_reply payload := rfl
  payload_refused payload h := handleRequest_refused h
  payload_query payload request hp hq := by
    simp only [handleControlRequestPayload, hp]
    exact handleRequest_query hq
  payload_accepted payload proto hp hok := by
    simp only [payloadResponse] at hok
    simp only [handleControlRequestPayload]
    rcases hp with hp | hp
    · rw [hp] at hok ⊢
      exact submitProto_accepted hok
    · rw [hp] at hok ⊢
      exact submitProto_accepted hok
  frame_reply frameBytes serialized h := handleControlFrame_reply h
  frame_refused frameBytes h := handleControlFrame_refused h
  frame_request frameBytes payload hd := by simp [handleControlFrame, hd]

def sampleProto : AgentRegistration where
  agentId := ascii "agent-1"
  nodeId := ascii "n"
  endpoint := ascii "e:1"
  revision := 1
  publicKey := List.replicate 32 7
  signature := List.replicate 64 9

def samplePayload : Bytes :=
  [10, 119, 10, 7] ++ ascii "agent-1" ++ [18, 1] ++ ascii "n" ++ [26, 3] ++ ascii "e:1" ++ [40, 1] ++
    [58, 32] ++ List.replicate 32 7 ++ [66, 64] ++ List.replicate 64 9

/-- The wire format, as far as the request above and replies without a
snapshot use it. -/
def sampleCodec : ControlCodec where
  parseRequest bytes := if bytes = samplePayload then some (.registerAgent sampleProto) else none
  serializeResponse response :=
    if response.snapshot = [] ∧ response.message.length < 128 then
      some ((if response.ok then [8, 1] else []) ++ [18, UInt8.ofNat response.message.length] ++ response.message)
    else none

/-- A scheme in which the one signature of the sample key is the sample
signature. -/
def samplePlatform : Platform where
  sodium := some (fun signature _ key => signature = List.replicate 64 9 ∧ key = List.replicate 32 7)
  revisionSort := insertionRevisionSort

theorem sampleCodec_parses : sampleCodec.parseRequest samplePayload = some (.registerAgent sampleProto) := by
  simp [sampleCodec]

theorem state_follows_reply_sample :
    let answer := handleControlRequestPayload samplePlatform sampleCodec { trust := ⟨true⟩ } 0 {} samplePayload
    answer.2 = [8, 1, 18, 10] ++ ascii "registered" ∧ StoredAndLogged {} answer.1 (fromProto {} 0 sampleProto) := by
  have hfollows := state_follows_reply samplePlatform sampleCodec { trust := ⟨true⟩ } 0 {}
  refine ⟨?_, hfollows.payload_accepted samplePayload sampleProto (Or.inl sampleCodec_parses) (by decide +kernel)⟩
  rw [hfollows.payload_reply]
  decide +kernel

end BeaconNode.ControlReplies
