import BeaconNode.ClientRuns
import BeaconNode.GossipSafety
import BeaconNode.ListedSignatures

namespace BeaconNode.CarriedSignatures

open Words TextStream OrderedMap Records Crypto Identity Registry LineProtocol ProtobufControl SyncClient Utf8
  PythonIdentity PythonClient PythonText PythonListing ListedAgents SdkSync ClientCalls ServedCalls ListingCalls
  ClientRuns ListedSignatures GossipSafety

def Spelled (interpreter : Interpreter) (submitted : List AgentRecord) : Prop :=
  ∀ s ∈ submitted, ∃ registration, Listable registration s ∧ PrintsBack interpreter registration

/-- The agent has the name, the payload and the signature of the record. -/
structure Signs (interpreter : Interpreter) (record : AgentRecord) (agent : ListedAgent) : Prop where
  agentId : encode agent.agentId = record.agentId
  payload : canonicalAgentPayload interpreter agent = .ok (Crypto.canonicalAgentPayload record)
  publicKey : agent.publicKey = decodeHex record.publicKeyHex
  signature : agent.signature = decodeHex record.signatureHex

section

variable {ι : Type} (settings : ι → Settings)

/-- The verdict on the agent is the one on the registration that the record
holds, and that of each engine which has the same verifier. -/
structure SameVerdict (interpreter : Interpreter) (verify : Verifier) (record : AgentRecord) (agent : ListedAgent) :
    Prop where
  sender : ∀ registration, Listable registration record →
    verifyRegistration interpreter verify agent = verifyRegistration interpreter verify (ofRegistration registration)
  engines : ∀ j, (settings j).platform.sodium = some verify →
    (verifyRegistration interpreter verify agent = .ok true ↔
      verifyAgentSignature (settings j).platform.sodium record = .valid)

structure Sound (verify : Verifier) (identity : AgentIdentity) : Prop where
  publicKey : identity.publicKey.length = cryptoSignPublicKeyBytes
  signature : ∀ payload, (identity.privateSign payload).length = cryptoSignBytes ∧
    verify (identity.privateSign payload) payload identity.publicKey = true

/-- The verdict on what is read of the record is that on a submitted one of
which it is a copy, and favourable if that one was signed. -/
def Vouched (interpreter : Interpreter) (verify : Verifier) (submitted : List AgentRecord) (r : AgentRecord)
    (agent : ListedAgent) : Prop :=
  ∃ s ∈ submitted, SameButExpiry r s ∧ encode agent.agentId = s.agentId ∧
    SameVerdict settings interpreter verify s agent ∧
    ∀ identity registration, Sound verify identity → Listable (identity.sign registration) s →
      verifyRegistration interpreter verify agent = .ok true

end

variable {ι : Type} {settings : ι → Settings} {interpreter : Interpreter} {verify : Verifier}
  {registration : Registration} {record r s : AgentRecord} {agent : ListedAgent}

theorem Signs.sameVerdict (h : Signs interpreter record agent) :
    SameVerdict settings interpreter verify record agent := by
  refine ⟨fun registration hl => ?_, fun j hj =>
    hj ▸ verifyRegistration_of_payload verify h.publicKey h.signature h.payload⟩
  have hrevision : registration.revision < 2 ^ 64 := hl.encodes.revision ▸ record.revision.toNat_lt
  have hpayload : canonicalAgentPayload interpreter (ofRegistration registration) =
      .ok (Crypto.canonicalAgentPayload record) := by
    rw [canonicalAgentPayload_prints (prints_ofRegistration interpreter registration) hrevision, payload_eq hl.encodes]
  have hk : (ofRegistration registration).publicKey = agent.publicKey := hl.publicKey.trans h.publicKey.symm
  have hs : (ofRegistration registration).signature = agent.signature := hl.signature.trans h.signature.symm
  rw [verifyRegistration, verifyRegistration, h.payload, hpayload, hk, hs]

theorem verifyRegistration_sign {identity : AgentIdentity} (h : Sound verify identity)
    (hrevision : registration.revision < 2 ^ 64) :
    verifyRegistration interpreter verify (ofRegistration (identity.sign registration)) = .ok true := by
  obtain ⟨hlength, haccepted⟩ :=
    h.signature (PythonIdentity.canonicalAgentPayload registration.toAgentRegistration)
  have hpayload :=
    canonicalAgentPayload_prints (prints_ofRegistration interpreter (identity.sign registration)) hrevision
  have hkey : identity.publicKey ≠ [] := by
    intro he
    have hzero := h.publicKey
    rw [he] at hzero
    cases hzero
  have hsigned : identity.privateSign (PythonIdentity.canonicalAgentPayload registration.toAgentRegistration) ≠ [] := by
    intro he
    rw [he] at hlength
    cases hlength
  have hpublic : (ofRegistration (identity.sign registration)).publicKey = identity.publicKey := rfl
  have hsignature : (ofRegistration (identity.sign registration)).signature =
      identity.privateSign (PythonIdentity.canonicalAgentPayload registration.toAgentRegistration) := rfl
  rw [verifyRegistration, hpayload, hpublic, hsignature, if_neg (not_or.mpr ⟨hkey, hsigned⟩),
    if_neg (not_not.mpr h.publicKey)]
  exact congrArg Except.ok (by rw [decide_eq_true hlength, Bool.true_and]; exact haccepted)

theorem listable_of_sameButExpiry (h : SameButExpiry r s) (hl : Listable registration s) : Listable registration r := by
  have he := h.symm
  rw [SameButExpiry] at he
  rw [← he]
  exact { hl with encodes := { hl.encodes with } }

theorem Signs.of_sameButExpiry (h : SameButExpiry r s) (hs : Signs interpreter r agent) :
    Signs interpreter s agent := by
  rw [SameButExpiry] at h
  rw [← h]
  exact ⟨hs.agentId, hs.payload, hs.publicKey, hs.signature⟩

theorem readAs_signs (h : Listable registration record) (hp : PrintsBack interpreter registration) :
    ReadAs interpreter (Signs interpreter) record := by
  have hrevision : registration.revision < 2 ^ 64 := h.encodes.revision ▸ record.revision.toNat_lt
  constructor
  · obtain ⟨agent, hagent, hprints⟩ := parseAgent_prints h hp
    refine ⟨registration, agent, h, hagent, ?_, ?_, hprints.publicKey.trans h.publicKey,
      hprints.signature.trans h.signature⟩
    · rw [hprints.agentId, h.encodes.agentId]
    · rw [canonicalAgentPayload_prints hprints hrevision, payload_eq h.encodes]
  · obtain ⟨agent, hagent, -⟩ := fromProtoAgent_shows h
    have hfields := holdsFields_fromProtoAgent hagent
    have hencodes : EncodesTo agent.toAgentRegistration record := by
      refine ⟨hfields.agentId, hfields.nodeId, hfields.endpoint, hfields.revision, ?_⟩
      have hmetadata : (toProto record).metadata = record.metadata := SortedMap.foldl_insert_empty record.metadata
      rw [← hmetadata]
      exact hfields.metadata
    refine ⟨agent, hagent, hfields.agentId.symm, ?_, hfields.publicKey.symm, hfields.signature.symm⟩
    have hbound : agent.revision < 2 ^ 64 := hencodes.revision ▸ record.revision.toNat_lt
    rw [canonicalAgentPayload_prints (prints_ofRegistration interpreter agent) hbound, payload_eq hencodes]

theorem Signs.vouched {submitted : List AgentRecord} (hs : s ∈ submitted) (he : SameButExpiry r s)
    (h : Signs interpreter r agent) : Vouched settings interpreter verify submitted r agent := by
  have hverdict : SameVerdict settings interpreter verify s agent := (h.of_sameButExpiry he).sameVerdict
  refine ⟨s, hs, he, (h.of_sameButExpiry he).agentId, hverdict, fun identity registration hsound hl => ?_⟩
  have hrevision : registration.revision < 2 ^ 64 := hl.encodes.revision ▸ s.revision.toNat_lt
  rw [hverdict.sender _ hl]
  exact verifyRegistration_sign hsound hrevision

variable [DecidableEq ι]

/-- Wherever an agent is listed, and however often its record was passed on,
a client comes to the verdict on its signature that the engines come to which
check signatures, and that the one who registered it would have come to. In
particular it accepts what was signed. -/
theorem verdicts_carried (settings : ι → Settings) (identities : ι → Option IdentityService) (c : Cluster ι)
    (hc : Relation.ReflTransGen (Step settings) (initial identities) c) (setting : Setting)
    (hsubmitted : Spelled setting.interpreter c.submitted) (verify : Verifier) (i : ι) (call : ClientCall)
    (hl : call.call.lists = true) (hcall : Callable setting.interpreter call.call)
    (hcarried : Carried setting (c.nodes i) call) :
    ∃ agents, (makeCall setting (c.nodes i) call).2 = .ok (.agents agents) ∧
      List.Forall₂ (Vouched settings setting.interpreter verify c.submitted)
        (listing setting.server (c.nodes i).registry call.call) agents := by
  have htracing := run_tracing identities hc
  have hread : ∀ r ∈ (c.nodes i).registry.records,
      ReadAs setting.interpreter (Vouched settings setting.interpreter verify c.submitted) r := by
    intro r hr
    obtain ⟨s, hs, he⟩ := htracing.registries i r hr
    obtain ⟨registration, hlistable, hprints⟩ := hsubmitted s hs
    exact (readAs_signs (listable_of_sameButExpiry he hlistable) hprints).imp fun agent ha => ha.vouched hs he
  obtain ⟨agents, hmade, hvouched⟩ := makeCall_lists hl hcall hread hcarried
  exact ⟨agents, congrArg Prod.snd hmade, hvouched⟩

def constantIdentity : AgentIdentity := ⟨List.replicate 32 7, fun _ => List.replicate 64 9⟩

def constantVerifier : Verifier :=
  fun signature _ publicKey => decide (publicKey = List.replicate 32 7 ∧ signature = List.replicate 64 9)

def signedLine : Bytes := encode (encodeRegister (constantIdentity.sign sampleRegistration))

def signedRecord : AgentRecord := (keyedRecord (constantIdentity.sign sampleRegistration)).restamp (milliseconds 30000)

def watchingPlatform : Bool → Settings := fun _ => { platform := ⟨some constantVerifier, insertionRevisionSort⟩ }

theorem signedRecord_listable : Listable (constantIdentity.sign sampleRegistration) signedRecord := by
  have hlistable : Listable (constantIdentity.sign sampleRegistration)
      (keyedRecord (constantIdentity.sign sampleRegistration)) := by
    apply listable_keyedRecord
    · decide
    · decide
    · decide
    · decide
    · exact fun p hp => absurd hp List.not_mem_nil
  exact { hlistable with encodes := { hlistable.encodes with } }

theorem signedRecord_printsBack : PrintsBack cpython (constantIdentity.sign sampleRegistration) :=
  ⟨Or.inl (by decide), Or.inl (by decide), Or.inl (by decide), fun q hq => absurd hq List.not_mem_nil⟩

theorem watching_run : ∃ c : Cluster Bool,
    Relation.ReflTransGen (Step watchingPlatform) (initial fun _ => none) c ∧
      c.records true = [signedRecord] ∧ c.submitted = [signedRecord] := by
  have h₁ : Relation.ReflTransGen (Step watchingPlatform) (initial fun _ => none) _ :=
    .single (.register false 0 signedLine rfl (by decide +kernel) (by decide +kernel))
  have h₂ := h₁.tail (Step.push false (r := signedRecord) (by decide +kernel))
  have hm := List.mem_append_right [] (List.mem_singleton_self (Message.merge (encodeMergeCommand signedRecord)))
  exact ⟨_, h₂.tail (Step.deliverMerge true 0 hm), by decide +kernel, by decide +kernel⟩

theorem verdicts_carried_pushed :
    ∃ (c : Cluster Bool) (agents : List ListedAgent), c.records true = [signedRecord] ∧
      (makeCall sampleSetting (c.nodes true) ⟨onlooker, .listAgents, 6, bytewise, bytewise⟩).2 =
        .ok (.agents agents) ∧
      List.Forall₂ (Vouched watchingPlatform cpython constantVerifier c.submitted) (c.records true) agents := by
  obtain ⟨c, hc, hrecords, hsubmitted⟩ := watching_run
  have hspelled : Spelled cpython c.submitted := by
    rw [hsubmitted]
    intro s hs
    rw [List.mem_singleton.mp hs]
    exact ⟨_, signedRecord_listable, signedRecord_printsBack⟩
  obtain ⟨agents, hmade, hvouched⟩ := verdicts_carried watchingPlatform (fun _ => none) c hc sampleSetting
    hspelled constantVerifier true ⟨onlooker, .listAgents, 6, bytewise, bytewise⟩ rfl trivial nofun
  exact ⟨c, agents, hrecords, hmade, hvouched⟩

end BeaconNode.CarriedSignatures
