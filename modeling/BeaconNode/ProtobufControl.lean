import BeaconNode.LineProtocol

namespace BeaconNode.ProtobufControl

open Words TextStream OrderedMap Records Crypto Identity Registry LineProtocol

/-- The fields of the message that the engine reads or writes. -/
structure AgentRegistration where
  agentId : Bytes := []
  nodeId : Bytes := []
  endpoint : Bytes := []
  metadata : Metadata := .empty
  revision : UInt64 := 0
  publicKey : Bytes := []
  signature : Bytes := []
  deriving DecidableEq

inductive ControlRequest
  | registerAgent (registration : AgentRegistration)
  | heartbeat (agentId : Bytes) (revision : UInt64)
  | listAgents
  | syncPull (afterRevision : UInt64) (limit : UInt32)
  | syncMerge (registration : AgentRegistration)
  | stats
  | empty

structure ControlResponse where
  ok : Bool := false
  message : Bytes := []
  snapshot : List AgentRegistration := []

/-- The generated message classes, as the parse and the serialize function
the engine calls. -/
structure ControlCodec where
  parseRequest : Bytes → Option ControlRequest
  serializeResponse : ControlResponse → Option Bytes

def fromProto (lifecycle : LifecycleConfig) (now : TimePoint) (proto : AgentRegistration) : AgentRecord where
  agentId := proto.agentId
  nodeId := proto.nodeId
  endpoint := proto.endpoint
  revision := proto.revision
  expiresAt := now + milliseconds lifecycle.heartbeatTtl
  publicKeyHex := encodeHex proto.publicKey
  signatureHex := encodeHex proto.signature
  metadata := proto.metadata.entries.foldl (fun m p => m.insert p.1 p.2) .empty

def toProto (record : AgentRecord) : AgentRegistration where
  agentId := record.agentId
  nodeId := record.nodeId
  endpoint := record.endpoint
  revision := record.revision
  metadata := record.metadata.entries.foldl (fun m p => m.insert p.1 p.2) .empty
  publicKey := decodeHex record.publicKeyHex
  signature := decodeHex record.signatureHex

/-- The register_agent and sync_merge branches, which differ in one word.
The record has been moved into upsert when the identity service sees it. -/
def submitProto (sodium : Option Verifier) (protocol : ControlProtocol) (now : TimePoint) (node : Node)
    (proto : AgentRegistration) (done : Bytes) : Node × ControlResponse :=
  let record := fromProto protocol.lifecycle now proto
  if record.agentId = [] ∨ record.nodeId = [] ∨ record.endpoint = [] then
    (node, { ok := false, message := ascii "agent_id_node_id_and_endpoint_required" })
  else match signatureRefusal sodium protocol.trust record with
    | some message => (node, { ok := false, message := message })
    | none =>
        let (node, accepted) := node.upsert record
        if accepted then
          let register (identity : IdentityService) := (identity.verifyAndRegister sodium record.movedFrom).1
          ({ node with identity := node.identity.map register }, { ok := true, message := done })
        else (node, { ok := false, message := ascii "stale_revision" })

def handleRequest (platform : Platform) (protocol : ControlProtocol) (now : TimePoint) (node : Node)
    (request : Option ControlRequest) : Node × ControlResponse :=
  match request with
  | none => (node, { ok := false, message := ascii "invalid_protobuf_control_request" })
  | some (.registerAgent proto) => submitProto platform.sodium protocol now node proto (ascii "registered")
  | some (.syncMerge proto) => submitProto platform.sodium protocol now node proto (ascii "merged")
  | some (.heartbeat agentId revision) =>
      let (node, accepted) := handleHeartbeat protocol.lifecycle now node agentId revision
      (node, { ok := accepted
               message := if accepted then ascii "heartbeat" else ascii "unknown_or_stale_agent" })
  | some .listAgents =>
      (node, { ok := true, message := ascii "list", snapshot := node.registry.list.map toProto })
  | some (.syncPull afterRevision limit) =>
      (node, { ok := true, message := ascii "sync_pull"
               snapshot := (node.registry.entriesAfterRevision platform.revisionSort afterRevision
                 limit.toUInt64).map toProto })
  | some .stats => (node, { ok := true, message := statsText node.registry.stats })
  | some .empty => (node, { ok := false, message := ascii "empty_control_request" })

def handleControlRequestPayload (platform : Platform) (codec : ControlCodec) (protocol : ControlProtocol)
    (now : TimePoint) (node : Node) (payload : Bytes) : Node × Bytes :=
  let (node, response) := handleRequest platform protocol now node (codec.parseRequest payload)
  (node, (codec.serializeResponse response).getD [])

def requestOperation (lifecycle : LifecycleConfig) (now : TimePoint) : Option ControlRequest → Operation
  | some (.registerAgent proto) | some (.syncMerge proto) =>
      let record := fromProto lifecycle now proto
      if record.agentId = [] ∨ record.nodeId = [] ∨ record.endpoint = [] then .query else .submit record
  | some (.heartbeat agentId revision) => .refresh agentId revision
  | none | some .listAgents | some (.syncPull _ _) | some .stats | some .empty => .query

theorem verifyAndRegister_movedFrom (sodium : Option Verifier) (identity : IdentityService)
    (record : AgentRecord) : identity.verifyAndRegister sodium record.movedFrom = (identity, .missing) := by
  have hm : verifyAgentSignature sodium record.movedFrom = .missing :=
    verifyAgentSignature_missing.mpr (Or.inl rfl)
  rw [verifyAndRegister_of_not_valid (by simp [hm]), hm]

/-- The two branches that store records, in one equation. The record has lost
its key when it is offered to the identity service, so none is pinned. -/
theorem submitProto_eq (sodium : Option Verifier) (protocol : ControlProtocol) (now : TimePoint) (node : Node)
    (proto : AgentRegistration) (done : Bytes) :
    submitProto sodium protocol now node proto done =
      let record := fromProto protocol.lifecycle now proto
      if record.agentId = [] ∨ record.nodeId = [] ∨ record.endpoint = [] then
        (node, { ok := false, message := ascii "agent_id_node_id_and_endpoint_required" })
      else if accepts sodium protocol.trust node record then
        ({ node with registry := (acceptRecord sodium node record).registry }, { ok := true, message := done })
      else (node, { ok := false, message := refusal sodium protocol.trust record }) := by
  simp only [submitProto]
  split
  · rfl
  · cases hs : signatureRefusal sodium protocol.trust (fromProto protocol.lifecycle now proto) with
    | some message => simp [accepts, refusal, signatureAllowed, hs]
    | none =>
        cases ha : admits node.registry.records (fromProto protocol.lifecycle now proto) with
        | true =>
            simp [accepts, signatureAllowed, hs, ha, Node.upsert, upsert_eq, acceptRecord,
              verifyAndRegister_movedFrom]
        | false => simp [accepts, refusal, signatureAllowed, hs, ha, Node.upsert, upsert_eq]

theorem submitProto_registry (sodium : Option Verifier) (protocol : ControlProtocol) (now : TimePoint)
    (node : Node) (proto : AgentRegistration) (done : Bytes) :
    (submitProto sodium protocol now node proto done).1.registry =
      (perform sodium protocol now node
        (requestOperation protocol.lifecycle now (some (.registerAgent proto)))).registry := by
  rw [submitProto_eq]
  simp only [requestOperation]
  split
  · rfl
  · rw [perform, submitEffect_eq]
    split
    · rfl
    · rfl

theorem handleControlRequestPayload_registry (platform : Platform) (codec : ControlCodec)
    (protocol : ControlProtocol) (now : TimePoint) (node : Node) (payload : Bytes) :
    (handleControlRequestPayload platform codec protocol now node payload).1.registry =
      (perform platform.sodium protocol now node
        (requestOperation protocol.lifecycle now (codec.parseRequest payload))).registry := by
  simp only [handleControlRequestPayload]
  cases codec.parseRequest payload with
  | none => rfl
  | some request =>
      cases request with
      | registerAgent proto => exact submitProto_registry _ _ _ _ proto (ascii "registered")
      | syncMerge proto => exact submitProto_registry _ _ _ _ proto (ascii "merged")
      | heartbeat | listAgents | syncPull | stats | empty => rfl

/-- They differ in the trust store: the record has been moved from when the
protobuf handler offers it, and a moved-from record has no key to pin. -/
theorem handleControlRequestPayload_identity (platform : Platform) (codec : ControlCodec)
    (protocol : ControlProtocol) (now : TimePoint) (node : Node) (payload : Bytes) :
    (handleControlRequestPayload platform codec protocol now node payload).1.identity = node.identity := by
  have hsubmit (proto : AgentRegistration) (done : Bytes) :
      (submitProto platform.sodium protocol now node proto done).1.identity = node.identity := by
    rw [submitProto_eq]
    dsimp only
    split
    · rfl
    · split
      · rfl
      · rfl
  simp only [handleControlRequestPayload]
  cases codec.parseRequest payload with
  | none => rfl
  | some request =>
      cases request with
      | registerAgent proto | syncMerge proto => exact hsubmit proto _
      | heartbeat | listAgents | syncPull | stats | empty => rfl

end BeaconNode.ProtobufControl
