import BeaconNode.ControlReplies
import BeaconNode.SignedRegistry

namespace BeaconNode.Transports

open Words TextStream OrderedMap Records Crypto Identity Registry LineProtocol ProtobufControl RecordCodec
  CanonicalPayload AcceptedLines ControlReplies SignedRegistry

structure LineSafe (proto : AgentRegistration) : Prop where
  agentId : proto.agentId ≠ [] ∧ SpaceFree proto.agentId
  nodeId : proto.nodeId ≠ [] ∧ SpaceFree proto.nodeId
  endpoint : proto.endpoint ≠ [] ∧ SpaceFree proto.endpoint
  metadata : ∀ p ∈ proto.metadata.entries, SpaceFree p.1 ∧ equals ∉ p.1 ∧ SpaceFree p.2

def protoRecord (proto : AgentRegistration) : AgentRecord where
  agentId := proto.agentId
  nodeId := proto.nodeId
  endpoint := proto.endpoint
  metadata := proto.metadata
  revision := proto.revision
  expiresAt := 0
  publicKeyHex := encodeHex proto.publicKey
  signatureHex := encodeHex proto.signature

/-- The words of the registration after a verb. A key or a signature of no
bytes has no word. -/
def submitLine (verb : String) (proto : AgentRegistration) : Bytes :=
  ascii verb ++ (recordTokens (protoRecord proto)).flatMap (fun w => space :: w)

def heartbeatLine (agentId : Bytes) (revision : UInt64) : Bytes :=
  ascii "HEARTBEAT agent_id=" ++ agentId ++ ascii " revision=" ++ decimal revision.toNat

def CarriesHeartbeat (lifecycle : LifecycleConfig) (now : TimePoint) (line agentId : Bytes) (revision : UInt64) :
    Prop :=
  (parseCommand lifecycle now line).error = [] ∧ (parseCommand lifecycle now line).action = .heartbeat ∧
    (parseCommand lifecycle now line).agentId = agentId ∧
      (parseCommand lifecycle now line).registration.revision = revision

/-- The same verdict and the same registry from a line and from a payload. The
verdict on the payload is the success flag of the message that its reply
serializes. -/
def Agree (platform : Platform) (codec : ControlCodec) (protocol : ControlProtocol) (now : TimePoint) (node : Node)
    (line payload : Bytes) : Prop :=
  (handleControlRequestPayload platform codec protocol now node payload).2 =
      (codec.serializeResponse (payloadResponse platform codec protocol now node payload)).getD [] ∧
    startsWith (handleLine platform protocol now node line).2 (ascii "OK") =
      (payloadResponse platform codec protocol now node payload).ok ∧
    (handleLine platform protocol now node line).1.registry =
      (handleControlRequestPayload platform codec protocol now node payload).1.registry

variable {platform : Platform} {codec : ControlCodec} {protocol : ControlProtocol} {now : TimePoint} {node : Node}
  {proto : AgentRegistration}

theorem LineSafe.wireSafe (h : LineSafe proto) : WireSafe (protoRecord proto) where
  agentId_ne := h.agentId.1
  agentId := h.agentId.2
  nodeId := h.nodeId.2
  endpoint := h.endpoint.2
  publicKeyHex := encodeHex_spaceFree _
  signatureHex := encodeHex_spaceFree _
  metadata := h.metadata

theorem LineSafe.addressed (h : LineSafe proto) : Addressed (protoRecord proto) := ⟨h.nodeId.1, h.endpoint.1⟩

theorem fromProto_eq (lifecycle : LifecycleConfig) (now : TimePoint) (proto : AgentRegistration) :
    fromProto lifecycle now proto =
      (protoRecord proto).restamp (now + milliseconds lifecycle.heartbeatTtl) := by
  simp only [fromProto, SortedMap.foldl_insert_empty]
  rfl

theorem LineSafe.fields (h : LineSafe proto) (lifecycle : LifecycleConfig) (now : TimePoint) :
    ¬ ((fromProto lifecycle now proto).agentId = [] ∨ (fromProto lifecycle now proto).nodeId = [] ∨
      (fromProto lifecycle now proto).endpoint = []) := by
  rintro (he | he | he)
  · exact h.agentId.1 he
  · exact h.nodeId.1 he
  · exact h.endpoint.1 he

theorem submitProto_lineSafe (h : LineSafe proto) (done : Bytes) :
    (submitProto platform.sodium protocol now node proto done).2.ok =
      accepts platform.sodium protocol.trust node (fromProto protocol.lifecycle now proto) := by
  rw [submitProto_eq]
  dsimp only
  rw [if_neg (h.fields _ _)]
  cases ha : accepts platform.sodium protocol.trust node (fromProto protocol.lifecycle now proto) with
  | true => simp
  | false => simp

theorem submitRecord_ok (sodium : Option Verifier) (trust : TrustConfig) (node : Node) (record : AgentRecord)
    (done : Bytes) :
    startsWith (submitRecord sodium trust node record done).2 (ascii "OK") = accepts sodium trust node record := by
  rw [submitRecord_eq]
  cases accepts sodium trust node record with
  | true => rfl
  | false => rfl

theorem agree_submit {line payload : Bytes} (done : Bytes) (h : LineSafe proto)
    (hl : SubmitsRecord (parseCommand protocol.lifecycle now line))
    (hr : (parseCommand protocol.lifecycle now line).registration = fromProto protocol.lifecycle now proto)
    (hp : handleRequest platform protocol now node (codec.parseRequest payload) =
      submitProto platform.sodium protocol now node proto done) :
    Agree platform codec protocol now node line payload := by
  obtain ⟨word, hline⟩ := handleLine_submit platform node hl
  refine ⟨rfl, ?_, ?_⟩
  · rw [payloadResponse, hp, submitProto_lineSafe h, hline, submitRecord_ok, hr]
  · have hsubmit : requestOperation protocol.lifecycle now (some (.registerAgent proto)) =
        .submit (fromProto protocol.lifecycle now proto) := if_neg (h.fields _ _)
    simp only [handleControlRequestPayload, hp]
    rw [submitProto_registry, hsubmit, handleLine_node, hl.operation, hr]

theorem parseCommand_submitLine (h : LineSafe proto) (lifecycle : LifecycleConfig) (now : TimePoint) {verb : String}
    {action : ControlAction} (hne : ascii verb ≠ []) (hv : SpaceFree (ascii verb))
    (hs : startCommand lifecycle now (ascii verb) =
      { action := action, registration := { expiresAt := now + milliseconds lifecycle.heartbeatTtl } }) :
    parseCommand lifecycle now (submitLine verb proto) =
      { action := action, agentId := proto.agentId, registration := fromProto lifecycle now proto } := by
  rw [fromProto_eq]
  exact parseCommand_record h.wireSafe h.addressed lifecycle now hne hv hs

theorem parseCommand_heartbeatLine (lifecycle : LifecycleConfig) (now : TimePoint) {agentId : Bytes}
    (revision : UInt64) (hs : SpaceFree agentId) (hne : agentId ≠ []) :
    parseCommand lifecycle now (heartbeatLine agentId revision) =
      { action := .heartbeat, agentId := agentId
        registration := { agentId := agentId, revision := revision, expiresAt := now } } := by
  let agent := ascii "agent_id=" ++ agentId
  let number := ascii "revision=" ++ decimal revision.toNat
  have htext : heartbeatLine agentId revision =
      ascii "HEARTBEAT" ++ [agent, number].flatMap (fun w => space :: w) := by
    have ha : ascii "HEARTBEAT agent_id=" = ascii "HEARTBEAT" ++ space :: ascii "agent_id=" := rfl
    have hr : ascii " revision=" = space :: ascii "revision=" := rfl
    simp [heartbeatLine, agent, number, ha, hr]
  have htokens : splitTokens (heartbeatLine agentId revision) = [ascii "HEARTBEAT", agent, number] := by
    rw [htext]
    apply splitTokens_words
    simp only [List.forall_mem_cons, List.not_mem_nil, false_imp_iff, implies_true, and_true]
    refine ⟨⟨by decide, by decide⟩, ⟨by simp [agent, ascii], ?_⟩, by simp [number, ascii], ?_⟩
    · exact SpaceFree.append (by decide) hs
    · exact SpaceFree.append (by decide) (decimal_spaceFree _)
  have hagent (command : ControlCommand) : parseField command agent = { command with
      agentId := agentId, registration := { command.registration with agentId := agentId } } := rfl
  have hnumber (command : ControlCommand) : parseField command number =
      { command with registration := { command.registration with revision := revision } } :=
    parseField_revision command revision
  have hstart : startCommand lifecycle now (ascii "HEARTBEAT") =
      { action := .heartbeat, registration := { expiresAt := now } } := rfl
  rw [parseCommand, htokens]
  simp [hstart, parseFields, hagent, hnumber, requiredFields, hne]

theorem heartbeatLine_carries (lifecycle : LifecycleConfig) (now : TimePoint) {agentId : Bytes} (revision : UInt64)
    (hs : SpaceFree agentId) (hne : agentId ≠ []) :
    CarriesHeartbeat lifecycle now (heartbeatLine agentId revision) agentId revision := by
  rw [CarriesHeartbeat, parseCommand_heartbeatLine lifecycle now revision hs hne]
  exact ⟨rfl, rfl, rfl, rfl⟩

theorem CarriesHeartbeat.spaceFree {lifecycle : LifecycleConfig} {line agentId : Bytes} {revision : UInt64}
    (h : CarriesHeartbeat lifecycle now line agentId revision) : SpaceFree agentId := by
  have hreading := parseCommand_reading lifecycle now line
  rw [← h.2.2.1, ← hreading.agentId]
  exact hreading.fields.agentId

theorem agree_heartbeat {line payload agentId : Bytes} {revision : UInt64}
    (hl : CarriesHeartbeat protocol.lifecycle now line agentId revision)
    (hp : codec.parseRequest payload = some (.heartbeat agentId revision)) :
    Agree platform codec protocol now node line payload := by
  obtain ⟨he, ha, hid, hrev⟩ := hl
  refine ⟨rfl, ?_⟩
  simp only [payloadResponse, handleControlRequestPayload, handleLine, hp, he, ha, hid, hrev, handleRequest, ne_eq,
    not_true_eq_false, if_false, and_true]
  cases (handleHeartbeat protocol.lifecycle now node agentId revision).2 with
  | true => rfl
  | false => rfl

/-- The two ways to submit a record or a heartbeat, compared request by
request. The payload is one that the generated parser reads as the request. -/
structure TransportsAgree (platform : Platform) (codec : ControlCodec) (protocol : ControlProtocol) (now : TimePoint)
    (node : Node) : Prop where
  register : ∀ proto payload, LineSafe proto → codec.parseRequest payload = some (.registerAgent proto) →
    Agree platform codec protocol now node (submitLine "REGISTER" proto) payload
  merge : ∀ proto payload, LineSafe proto → codec.parseRequest payload = some (.syncMerge proto) →
    Agree platform codec protocol now node (submitLine "MERGE" proto) payload
  heartbeat : ∀ agentId revision payload, agentId ≠ [] → SpaceFree agentId →
    codec.parseRequest payload = some (.heartbeat agentId revision) →
      Agree platform codec protocol now node (heartbeatLine agentId revision) payload
  heartbeat_anyLine : ∀ agentId revision line payload,
    CarriesHeartbeat protocol.lifecycle now line agentId revision →
      codec.parseRequest payload = some (.heartbeat agentId revision) →
        Agree platform codec protocol now node line payload
  heartbeat_iff : ∀ agentId revision, agentId ≠ [] →
    ((∃ line, CarriesHeartbeat protocol.lifecycle now line agentId revision) ↔ SpaceFree agentId)

theorem transports_agree (platform : Platform) (codec : ControlCodec) (protocol : ControlProtocol) (now : TimePoint)
    (node : Node) : TransportsAgree platform codec protocol now node where
  register proto payload h hp := by
    have hc := parseCommand_submitLine h protocol.lifecycle now (by decide) (by decide)
      (rfl : startCommand protocol.lifecycle now (ascii "REGISTER") = _)
    apply agree_submit (ascii "registered") h
    · rw [hc]
      exact ⟨rfl, Or.inl rfl⟩
    · rw [hc]
    · rw [hp]
      rfl
  merge proto payload h hp := by
    have hc := parseCommand_submitLine h protocol.lifecycle now (by decide) (by decide)
      (rfl : startCommand protocol.lifecycle now (ascii "MERGE") = _)
    apply agree_submit (ascii "merged") h
    · rw [hc]
      exact ⟨rfl, Or.inr rfl⟩
    · rw [hc]
    · rw [hp]
      rfl
  heartbeat agentId revision payload hne hs hp :=
    agree_heartbeat (heartbeatLine_carries protocol.lifecycle now revision hs hne) hp
  heartbeat_anyLine agentId revision line payload hl hp := agree_heartbeat hl hp
  heartbeat_iff agentId revision hne :=
    ⟨fun ⟨_, hl⟩ => hl.spaceFree, fun hs => ⟨_, heartbeatLine_carries protocol.lifecycle now revision hs hne⟩⟩

def blankHeartbeat : Bytes := [18, 7, 10, 3] ++ ascii "a b" ++ [24, 2]

def blankCodec : ControlCodec := { sampleCodec with
  parseRequest := fun bytes => if bytes = blankHeartbeat then some (.heartbeat (ascii "a b") 2) else none }

def firstWordNode : Node :=
  { registry := { records := [{ agentId := ascii "a", nodeId := ascii "n", endpoint := ascii "e:1", revision := 1
                                expiresAt := 0 }] } }

/-- The line refreshes the agent that its first word names. -/
theorem blankHeartbeat_disagrees :
    blankCodec.parseRequest blankHeartbeat = some (.heartbeat (ascii "a b") 2) ∧
      ¬ Agree ⟨none, insertionRevisionSort⟩ blankCodec {} 0 firstWordNode (heartbeatLine (ascii "a b") 2)
        blankHeartbeat := by
  refine ⟨by simp [blankCodec], fun h => ?_⟩
  have hverdict := h.2.1
  revert hverdict
  decide +kernel

def succeeds (server : Server) (node : Node) : Request → Bool
  | .line now text => startsWith (handleLine server.platform server.protocol now node text).2 (ascii "OK")
  | .payload now bytes => (payloadResponse server.platform server.codec server.protocol now node bytes).ok

def OnLine : Request → Prop
  | .line _ _ => True
  | .payload _ _ => False

def Pinned (node : Node) (record : AgentRecord) : Prop :=
  ∃ identity, node.identity = some identity ∧
    identity.pinnedKey record.agentId = some (decodeHex record.publicKeyHex)

variable {server : Server} {identity : IdentityService} {record : AgentRecord}

theorem line_pins {text : Bytes} (hi : node.identity = some identity)
    (hs : operationOf server (.line now text) = .submit record)
    (hok : succeeds server node (.line now text) = true)
    (hv : verifyAgentSignature server.platform.sodium record = .valid)
    (hn : identity.pinnedKey record.agentId = none) : Pinned (serve server node (.line now text)) record := by
  obtain ⟨he, ha, hr⟩ := operation_submit hs
  obtain ⟨done, hl⟩ := handleLine_submit server.platform node ⟨he, ha⟩
  rw [← hr] at hl
  simp only [succeeds, hl, submitRecord_ok] at hok
  simp only [serve, hl, submitRecord_eq, hok, if_true]
  refine ⟨(identity.verifyAndRegister server.platform.sodium record).1, ?_, ?_⟩
  · simp only [acceptRecord, hi]
    exact registerIdentity_of_valid hv
  · rw [pinnedKey_verifyAndRegister, if_pos ⟨hv, rfl, hn⟩]

theorem payload_pins_nothing {bytes : Bytes} (hi : node.identity = some identity)
    (hn : identity.pinnedKey record.agentId = none) : ¬ Pinned (serve server node (.payload now bytes)) record := by
  rintro ⟨after, ha, hp⟩
  have hsame : (serve server node (.payload now bytes)).identity = node.identity :=
    handleControlRequestPayload_identity _ _ _ _ _ _
  obtain rfl : identity = after := Option.some.inj (hi.symm.trans (hsame.symm.trans ha))
  rw [hn] at hp
  cases hp

/-- An accepted record with a valid signature has its key pinned exactly when
it came on a line: the protobuf handler offers the identity service a record
that it has moved away. -/
theorem pinned_iff_onLine (server : Server) (registry : AgentRegistry) (identity : IdentityService)
    (request : Request) (record : AgentRecord) (hs : operationOf server request = .submit record)
    (hok : succeeds server ⟨registry, some identity⟩ request = true)
    (hv : verifyAgentSignature server.platform.sodium record = .valid)
    (hn : identity.pinnedKey record.agentId = none) :
    Pinned (serve server ⟨registry, some identity⟩ request) record ↔ OnLine request := by
  cases request with
  | line now text => exact iff_of_true (line_pins rfl hs hok hv hn) trivial
  | payload now bytes => exact iff_of_false (payload_pins_nothing rfl hn) fun h => h

def sampleServer : Server := ⟨samplePlatform, sampleCodec, { trust := ⟨true⟩ }⟩

theorem sampleProto_lineSafe : LineSafe sampleProto where
  agentId := by decide
  nodeId := by decide
  endpoint := by decide
  metadata p hp := absurd hp List.not_mem_nil

theorem transports_agree_sample :
    Agree sampleServer.platform sampleCodec sampleServer.protocol 0 {} (submitLine "REGISTER" sampleProto)
      samplePayload :=
  (transports_agree sampleServer.platform sampleCodec sampleServer.protocol 0 {}).register sampleProto samplePayload
    sampleProto_lineSafe sampleCodec_parses

theorem samplePayload_submits :
    operationOf sampleServer (.payload 0 samplePayload) = .submit (fromProto {} 0 sampleProto) ∧
      succeeds sampleServer ⟨{}, some {}⟩ (.payload 0 samplePayload) = true ∧
        verifyAgentSignature sampleServer.platform.sodium (fromProto {} 0 sampleProto) = .valid ∧
          (({} : IdentityService).pinnedKey (fromProto {} 0 sampleProto).agentId = none) := by
  decide +kernel

theorem pinned_iff_onLine_sample :
    Pinned (serve sampleServer ⟨{}, some {}⟩ (.payload 0 samplePayload)) (fromProto {} 0 sampleProto) ↔
      OnLine (.payload 0 samplePayload) := by
  obtain ⟨hs, hok, hv, hn⟩ := samplePayload_submits
  exact pinned_iff_onLine sampleServer {} {} (.payload 0 samplePayload) _ hs hok hv hn

/-- The request is accepted and its key is not pinned. -/
theorem samplePayload_not_pinned :
    operationOf sampleServer (.payload 0 samplePayload) = .submit (fromProto {} 0 sampleProto) ∧
      succeeds sampleServer ⟨{}, some {}⟩ (.payload 0 samplePayload) = true ∧
        verifyAgentSignature sampleServer.platform.sodium (fromProto {} 0 sampleProto) = .valid ∧
          (({} : IdentityService).pinnedKey (fromProto {} 0 sampleProto).agentId = none) ∧
            ¬ Pinned (serve sampleServer ⟨{}, some {}⟩ (.payload 0 samplePayload)) (fromProto {} 0 sampleProto) := by
  obtain ⟨hs, hok, hv, hn⟩ := samplePayload_submits
  exact ⟨hs, hok, hv, hn, payload_pins_nothing rfl hn⟩

end BeaconNode.Transports
