import BeaconNode.ControlRuns
import BeaconNode.ProtobufControl

namespace BeaconNode.SignedRegistry

open Words TextStream OrderedMap Records Crypto Identity Registry KeyedList LineProtocol ControlRuns
  ProtobufControl

/-- One request on either transport, with the clock reading at its arrival. -/
inductive Request
  | line (now : TimePoint) (text : Bytes)
  | payload (now : TimePoint) (bytes : Bytes)

structure Server where
  platform : Platform
  codec : ControlCodec
  protocol : ControlProtocol

def serve (server : Server) (node : Node) : Request → Node
  | .line now text => (handleLine server.platform server.protocol now node text).1
  | .payload now bytes =>
      (handleControlRequestPayload server.platform server.codec server.protocol now node bytes).1

def operationOf (server : Server) : Request → Operation
  | .line now text => operation (parseCommand server.protocol.lifecycle now text)
  | .payload now bytes => requestOperation server.protocol.lifecycle now (server.codec.parseRequest bytes)

variable {server : Server} {node : Node} {r : AgentRecord}

theorem serve_registry (server : Server) (node : Node) (request : Request) :
    ∃ now, (serve server node request).registry =
      (perform server.platform.sodium server.protocol now node (operationOf server request)).registry := by
  cases request with
  | line now text => exact ⟨now, congrArg Node.registry (handleLine_node _ _ _ _ _)⟩
  | payload now bytes => exact ⟨now, handleControlRequestPayload_registry _ _ _ _ _ _⟩

theorem serve_oneRecordPerAgent (request : Request) (h : OneRecordPerAgent node.registry.records) :
    OneRecordPerAgent (serve server node request).registry.records := by
  obtain ⟨now, hs⟩ := serve_registry server node request
  rw [hs]
  cases operationOf server request with
  | submit record => exact submitEffect_oneRecordPerAgent _ _ record h
  | refresh agentId revision =>
      rw [OneRecordPerAgent, perform, handleHeartbeat_agentIds]
      exact h
  | query => exact h

/-- A heartbeat for the agent that asks for a higher revision sets it. -/
def heartbeatRevision (server : Server) (agentId : Bytes) (revision : UInt64) (request : Request) : UInt64 :=
  match operationOf server request with
  | .refresh heartbeatAgent asked => if heartbeatAgent = agentId then max revision asked else revision
  | .submit _ | .query => revision

theorem findRecord_serve {agentId : Bytes} {request : Request}
    (h : findRecord agentId (serve server node request).registry.records = some r) :
    (operationOf server request = .submit r ∧ accepts server.platform.sodium server.protocol.trust node r = true) ∨
      ∃ existing, findRecord agentId node.registry.records = some existing ∧
        r = { existing with
          expiresAt := r.expiresAt, revision := heartbeatRevision server agentId existing.revision request } := by
  obtain ⟨now, hs⟩ := serve_registry server node request
  rw [hs] at h
  cases ho : operationOf server request with
  | submit record =>
      rw [ho, perform, findRecord_submitEffect] at h
      split at h
      next ha =>
        obtain rfl := Option.some.inj h
        exact Or.inl ⟨rfl, ha.1⟩
      next => exact Or.inr ⟨r, h, by rw [heartbeatRevision, ho]⟩
  | refresh heartbeatAgent asked =>
      rw [ho, perform, findRecord_handleHeartbeat] at h
      right
      by_cases hagent : agentId = heartbeatAgent
      · subst hagent
        simp only [handleHeartbeat_accepted, and_true] at h
        split at h
        next ha =>
          obtain ⟨existing, hf, hle⟩ := ha
          rw [hf, Option.map_some] at h
          obtain rfl := Option.some.inj h
          exact ⟨existing, hf, by simp only [heartbeatRevision, ho, if_true, max_eq_right hle]⟩
        next ha =>
          have hlt : asked ≤ r.revision := le_of_not_ge fun hle => ha ⟨r, h, hle⟩
          exact ⟨r, h, by simp only [heartbeatRevision, ho, if_true, max_eq_left hlt]⟩
      · rw [if_neg fun ha => hagent ha.2] at h
        exact ⟨r, h, by simp only [heartbeatRevision, ho, if_neg (Ne.symm hagent)]⟩
  | query =>
      rw [ho] at h
      exact Or.inr ⟨r, h, by rw [heartbeatRevision, ho]⟩

/-- A request submitted the record, validly signed, and the registry took it.
Its revision is the signed one or the highest that heartbeats for its agent
have asked for since. -/
structure SignedThenRaised (server : Server) (start : Node) (requests : List Request) (r signed : AgentRecord) :
    Prop where
  submitted : ∃ before submission after, requests = before ++ submission :: after ∧
    operationOf server submission = .submit signed ∧
    accepts server.platform.sodium server.protocol.trust (before.foldl (serve server) start) signed = true ∧
    r.revision = after.foldl (heartbeatRevision server signed.agentId) signed.revision
  signed_valid : verifyAgentSignature server.platform.sodium signed = .valid
  fields : r = { signed with expiresAt := r.expiresAt, revision := r.revision }

theorem SignedThenRaised.serve {start : Node} {requests : List Request} {request : Request}
    {existing signed : AgentRecord} (h : SignedThenRaised server start requests existing signed)
    (hr : r = { existing with
      expiresAt := r.expiresAt, revision := heartbeatRevision server existing.agentId existing.revision request }) :
    SignedThenRaised server start (requests ++ [request]) r signed := by
  obtain ⟨⟨before, submission, after, rfl, hsubmit, haccepted, hrevision⟩, hvalid, hfields⟩ := h
  refine ⟨⟨before, submission, after ++ [request], by simp, hsubmit, haccepted, ?_⟩, hvalid, ?_⟩
  · rw [List.foldl_append, ← hrevision, hr, hfields]
    rfl
  · rw [hr, hfields]

theorem requests_findRecord (h : server.protocol.trust.requireSignatures = true) (start : Node)
    (hempty : start.registry.records = []) (requests : List Request) :
    OneRecordPerAgent (requests.foldl (serve server) start).registry.records ∧
      ∀ agentId r, findRecord agentId (requests.foldl (serve server) start).registry.records = some r →
        ∃ signed, SignedThenRaised server start requests r signed := by
  induction requests using List.reverseRecOn with
  | nil =>
      rw [List.foldl_nil, hempty]
      exact ⟨List.nodup_nil, fun agentId r hr => by cases hr⟩
  | append_singleton requests request ih =>
      rw [List.foldl_append, List.foldl_cons, List.foldl_nil]
      refine ⟨serve_oneRecordPerAgent request ih.1, fun agentId r hr => ?_⟩
      rcases findRecord_serve hr with ⟨hsubmit, haccepted⟩ | ⟨existing, hf, he⟩
      · have hvalid := valid_of_signatureAllowed h (Bool.and_eq_true_iff.mp haccepted).1
        exact ⟨r, ⟨requests, request, [], rfl, hsubmit, haccepted, rfl⟩, hvalid, rfl⟩
      · obtain ⟨signed, hsigned⟩ := ih.2 agentId existing hf
        rw [← findRecord_agentId hf] at he
        exact ⟨signed, hsigned.serve he⟩

/-- With signatures required, a record in the registry verifies unless a
heartbeat has raised its revision since it was submitted. -/
theorem requests_signedThenRaised (server : Server) (h : server.protocol.trust.requireSignatures = true)
    (identity : Option IdentityService) (requests : List Request) :
    ∀ r ∈ (requests.foldl (serve server) { identity := identity }).registry.records,
      ∃ signed, SignedThenRaised server { identity := identity } requests r signed ∧
        (r.revision = signed.revision → verifyAgentSignature server.platform.sodium r = .valid) := by
  intro r hr
  obtain ⟨hone, hall⟩ := requests_findRecord h { identity := identity } rfl requests
  obtain ⟨signed, hsigned⟩ := hall r.agentId r (hone.findRecord_of_mem hr)
  refine ⟨signed, hsigned, fun hrevision => ?_⟩
  have hsame : verifyAgentSignature server.platform.sodium r = verifyAgentSignature server.platform.sodium signed := by
    rw [hsigned.fields, hrevision]
    rfl
  rw [hsame]
  exact hsigned.signed_valid

def signedRecord : AgentRecord :=
  { agentId := ascii "agent-1", nodeId := ascii "node-1", endpoint := ascii "127.0.0.1:9000", revision := 1
    expiresAt := 0, publicKeyHex := List.replicate 64 48, signatureHex := List.replicate 128 48 }

def strictServer : Server where
  platform := ⟨some (fun _ message _ => message = canonicalAgentPayload signedRecord), insertionRevisionSort⟩
  codec := ⟨fun _ => none, fun _ => none⟩
  protocol := { trust := ⟨true⟩ }

def registerThenHeartbeat : List Request :=
  [.line 0 (ascii "REGISTER" ++ (encodeAgentLine signedRecord).drop 5),
    .line 0 (ascii "HEARTBEAT agent_id=agent-1 revision=2")]

def raisedRecord : AgentRecord := { signedRecord with revision := 2, expiresAt := milliseconds 30000 }

theorem registerThenHeartbeat_records :
    (registerThenHeartbeat.foldl (serve strictServer) {}).registry.records = [raisedRecord] := by
  decide +kernel

theorem requests_signedThenRaised_registerThenHeartbeat :
    raisedRecord ∈ (registerThenHeartbeat.foldl (serve strictServer) {}).registry.records ∧
      ∃ signed, SignedThenRaised strictServer {} registerThenHeartbeat raisedRecord signed ∧
        (raisedRecord.revision = signed.revision →
          verifyAgentSignature strictServer.platform.sodium raisedRecord = .valid) := by
  have hm : raisedRecord ∈ (registerThenHeartbeat.foldl (serve strictServer) {}).registry.records := by
    rw [registerThenHeartbeat_records]
    exact List.mem_singleton_self _
  exact ⟨hm, requests_signedThenRaised strictServer rfl none registerThenHeartbeat raisedRecord hm⟩

/-- The heartbeat leaves a signature of revision 1 on a record of revision 2. -/
theorem registerThenHeartbeat_not_valid :
    strictServer.protocol.trust.requireSignatures = true ∧
      ¬ ∀ r ∈ (registerThenHeartbeat.foldl (serve strictServer) {}).registry.records,
        verifyAgentSignature strictServer.platform.sodium r = .valid := by
  refine ⟨rfl, ?_⟩
  rw [registerThenHeartbeat_records]
  intro h
  exact absurd (h raisedRecord (by simp)) (by decide +kernel)

end BeaconNode.SignedRegistry
