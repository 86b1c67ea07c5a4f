import BeaconNode.ListedAgents
import BeaconNode.ProtobufControl
import BeaconNode.SyncClient

namespace BeaconNode.SdkSync

open Words TextStream OrderedMap Records Crypto Registry LineProtocol ProtobufControl Utf8 PythonIdentity PythonClient

/-- A key pair: the raw public key, and the sign method of the private one.
Signatures of this kind are a function of the payload. -/
structure AgentIdentity where
  publicKey : Bytes
  privateSign : Bytes → Bytes

def AgentIdentity.sign (identity : AgentIdentity) (registration : Registration) : Registration :=
  { registration with
    publicKey := identity.publicKey
    signature := identity.privateSign (PythonIdentity.canonicalAgentPayload registration.toAgentRegistration) }

/-- Any other text than protobuf selects the lines. -/
inductive Protocol
  | protobuf
  | line
  deriving DecidableEq

structure BeaconClient where
  protocol : Protocol := .protobuf
  identity : Option AgentIdentity := none

inductive MergeRequest
  | protobuf (syncMerge : ProtobufControl.AgentRegistration)
  | line (command : Str)

/-- The revision comes from a message or a record, so it has 64 bits. -/
def toProtoAgent (registration : Registration) : ProtobufControl.AgentRegistration where
  agentId := encode registration.agentId
  nodeId := encode registration.nodeId
  endpoint := encode registration.endpoint
  metadata := engineMetadata registration.metadata
  revision := UInt64.ofNat registration.revision
  publicKey := registration.publicKey
  signature := registration.signature

def encodeRequest (protocol : Protocol) (registration : Registration) : MergeRequest :=
  match protocol with
  | .protobuf => .protobuf (toProtoAgent registration)
  | .line => .line (encodeMerge registration)

namespace BeaconClient

def signed (client : BeaconClient) (registration : Registration) : Registration :=
  match client.identity with
  | none => registration
  | some identity => identity.sign registration

def mergeRequest (client : BeaconClient) (registration : Registration) : MergeRequest :=
  encodeRequest client.protocol (client.signed registration)

end BeaconClient

structure Engine where
  protocol : ControlProtocol := {}
  now : TimePoint := 0
  node : Node

namespace Engine

/-- The engine after a request to merge, and whether its reply says ok. -/
def handleMerge (platform : Platform) (engine : Engine) : MergeRequest → Engine × Bool
  | .protobuf agent =>
      let (node, response) := handleRequest platform engine.protocol engine.now engine.node (some (.syncMerge agent))
      ({ engine with node := node }, response.ok)
  | .line command =>
      let (node, response) :=
        SyncClient.sendCommand platform engine.protocol engine.now engine.node (encode command)
      ({ engine with node := node }, startsWith response (ascii "OK"))

def highestRevision (engine : Engine) : UInt64 := engine.node.registry.stats.highestRevision

def pullSnapshot (platform : Platform) (engine : Engine) (afterRevision : UInt64) (limit : UInt32) :
    List ProtobufControl.AgentRegistration :=
  (handleRequest platform engine.protocol engine.now engine.node (some (.syncPull afterRevision limit))).2.snapshot

end Engine

def readPair (p : Bytes × Bytes) : Option (Str × Str) := do
  let key ← decode p.1
  let value ← decode p.2
  pure (key, value)

/-- A text that is not UTF-8 raises. No two keys of a map are encodings of
one text. -/
def fromProtoAgent (agent : ProtobufControl.AgentRegistration) : Option Registration := do
  let agentId ← decode agent.agentId
  let nodeId ← decode agent.nodeId
  let endpoint ← decode agent.endpoint
  let items ← agent.metadata.entries.mapM readPair
  if h : (items.map Prod.fst).Nodup then
    pure { agentId := agentId, nodeId := nodeId, endpoint := endpoint, metadata := ⟨items, h⟩
           revision := agent.revision.toNat, publicKey := agent.publicKey, signature := agent.signature }
  else none

/-- A limit that the field of the message cannot hold raises, and on a line it
makes the engine answer with an error that lists nothing. The lines are taken
to be read as the messages are: as the fields that the engine has stored. -/
def syncPull (platform : Platform) (client : BeaconClient) (engine : Engine) (afterRevision : UInt64) (limit : Int) :
    Option (List Registration) :=
  match client.protocol with
  | .protobuf =>
      if 0 ≤ limit ∧ limit < 2 ^ 32 then
        (engine.pullSnapshot platform afterRevision (UInt32.ofNat limit.toNat)).mapM fromProtoAgent
      else none
  | .line =>
      if 0 ≤ limit ∧ limit < 2 ^ 64 then
        (engine.node.registry.entriesAfterRevision platform.revisionSort afterRevision
          (UInt64.ofNat limit.toNat)).mapM (fun record => fromProtoAgent (toProto record))
      else some []

/-- A registration that was pulled, and the request it was sent on with. -/
structure Relay where
  pulled : Registration
  sent : MergeRequest

/-- The state of one of the two loops: the engine that is merged into, the
replies that said ok, and what has been relayed. -/
structure Loop where
  engine : Engine
  count : Nat := 0
  relays : List Relay := []

def relayStep (platform : Platform) (client : BeaconClient) (state : Loop) (registration : Registration) : Loop :=
  let request := client.mergeRequest registration
  let (engine, ok) := state.engine.handleMerge platform request
  ⟨engine, if ok then state.count + 1 else state.count, state.relays ++ [⟨registration, request⟩]⟩

def relayAll (platform : Platform) (client : BeaconClient) (engine : Engine) (registrations : List Registration) :
    Loop :=
  registrations.foldl (relayStep platform client) { engine := engine }

structure Run where
  here : Engine
  peer : Engine
  inbound : List Relay
  outbound : List Relay
  result : Option SyncClient.SyncResult

/-- The two ends of a call: each client with the engine that it talks to. -/
structure Side where
  client : BeaconClient
  engine : Engine

def syncWithPeer (platform : Platform) (here remote : Side) (limit : Int) : Run :=
  let localRevision := here.engine.highestRevision
  let remoteRevision := remote.engine.highestRevision
  match syncPull platform remote.client remote.engine localRevision limit with
  | none => ⟨here.engine, remote.engine, [], [], none⟩
  | some registrations =>
      let pull := relayAll platform here.client here.engine registrations
      match syncPull platform here.client pull.engine remoteRevision limit with
      | none => ⟨pull.engine, remote.engine, pull.relays, [], none⟩
      | some registrations =>
          let push := relayAll platform remote.client remote.engine registrations
          ⟨pull.engine, push.engine, pull.relays, push.relays, some ⟨pull.count, push.count⟩⟩

structure HoldsFields (agent : ProtobufControl.AgentRegistration) (registration : Registration) : Prop where
  agentId : agent.agentId = encode registration.agentId
  nodeId : agent.nodeId = encode registration.nodeId
  endpoint : agent.endpoint = encode registration.endpoint
  revision : agent.revision.toNat = registration.revision
  metadata : ∀ p, p ∈ agent.metadata.entries ↔ p ∈ registration.metadata.items.map encodePair
  publicKey : agent.publicKey = registration.publicKey
  signature : agent.signature = registration.signature

/-- A line has them if it is the one that spells them. -/
def Carries (registration : Registration) : MergeRequest → Prop
  | .protobuf agent => HoldsFields agent registration
  | .line command => command = encodeMerge registration

/-- Every registration was sent on as it was pulled. -/
def Untouched (run : Run) : Prop := ∀ relay ∈ run.inbound ++ run.outbound, Carries relay.pulled relay.sent

/-- Merging through the client changes nothing in the registration: there is
no identity, or the registration has its key and its signature already. -/
def Keeps (client : BeaconClient) (registration : Registration) : Prop :=
  ∀ identity, client.identity = some identity →
    registration.publicKey = identity.publicKey ∧
      registration.signature =
        identity.privateSign (PythonIdentity.canonicalAgentPayload registration.toAgentRegistration)

variable {platform : Platform} {client : BeaconClient} {registration : Registration}

theorem signed_fields (client : BeaconClient) (registration : Registration) :
    (client.signed registration).toAgentRegistration = registration.toAgentRegistration := by
  rw [BeaconClient.signed]
  split
  · rfl
  · rfl

theorem registration_ext {r s : Registration} (hfields : r.toAgentRegistration = s.toAgentRegistration)
    (hk : r.publicKey = s.publicKey) (hs : r.signature = s.signature) : r = s := by
  cases r
  cases s
  cases hfields
  cases hk
  cases hs
  rfl

theorem keeps_iff : Keeps client registration ↔ client.signed registration = registration := by
  rw [BeaconClient.signed, Keeps]
  cases client.identity with
  | none => simp
  | some identity =>
      simp only [Option.some.injEq, forall_eq']
      constructor
      · rintro ⟨hk, hs⟩
        exact registration_ext rfl hk.symm hs.symm
      · intro h
        exact ⟨congrArg Registration.publicKey h.symm, congrArg Registration.signature h.symm⟩

theorem holdsFields_toProtoAgent (h : registration.revision < 2 ^ 64) :
    HoldsFields (toProtoAgent registration) registration := by
  have hencodes : EncodesTo registration.toAgentRegistration (engineRecord registration.toAgentRegistration) :=
    engineRecord_encodesTo h
  exact { hencodes with publicKey := rfl, signature := rfl }

theorem forall₂_of_mapM {α β : Type} {f : α → Option β} {l : List α} {m : List β} (h : l.mapM f = some m) :
    List.Forall₂ (fun a b => f a = some b) l m := by
  induction l generalizing m with
  | nil =>
      cases h
      exact .nil
  | cons a l ih =>
      simp only [List.mapM_cons, Option.bind_eq_bind, Option.bind_eq_some_iff, Option.pure_def,
        Option.some.injEq] at h
      obtain ⟨b, hfirst, rest, hrest, rfl⟩ := h
      exact .cons hfirst (ih hrest)

theorem map_encodePair_of_mapM_readPair {entries : List (Bytes × Bytes)} {items : List (Str × Str)}
    (h : entries.mapM readPair = some items) : items.map encodePair = entries := by
  have hpairs : List.Forall₂ (fun p q => p = encodePair q) entries items := by
    refine (forall₂_of_mapM h).imp fun p q hq => ?_
    simp only [readPair, Option.bind_eq_bind, Option.bind_eq_some_iff, Option.pure_def, Option.some.injEq] at hq
    obtain ⟨key, hk, value, hv, rfl⟩ := hq
    rw [encodePair, encode_of_decode hk, encode_of_decode hv]
  rw [← List.forall₂_map_right_iff, List.forall₂_eq_eq_eq] at hpairs
  exact hpairs.symm

theorem holdsFields_fromProtoAgent {agent : ProtobufControl.AgentRegistration}
    (h : fromProtoAgent agent = some registration) : HoldsFields agent registration := by
  simp only [fromProtoAgent, Option.bind_eq_bind, Option.bind_eq_some_iff] at h
  obtain ⟨agentId, ha, nodeId, hn, endpoint, he, items, hitems, h⟩ := h
  split at h
  · cases h
    refine ⟨(encode_of_decode ha).symm, (encode_of_decode hn).symm, (encode_of_decode he).symm, rfl, ?_, rfl, rfl⟩
    intro p
    rw [map_encodePair_of_mapM_readPair hitems]
  · cases h

theorem hex_injective {s t : Bytes} (h : hex s = hex t) : s = t := by
  have hread := congrArg PythonText.fromHex h
  rw [ListedAgents.fromHex_hex, ListedAgents.fromHex_hex] at hread
  exact Except.ok.inj hread

theorem hexPart_injective {name : String} {s t : Bytes} (h : hexPart name s = hexPart name t) : s = t := by
  rw [hexPart, hexPart] at h
  split at h
  next hs =>
    split at h
    next ht => rw [hs, ht]
    next => cases h
  next =>
    split at h
    next => cases h
    next => exact hex_injective (List.append_cancel_left (List.cons.inj h).1)

theorem hexParts_injective {k l s t : Bytes}
    (h : hexPart "public_key=" k ++ hexPart "signature=" s = hexPart "public_key=" l ++ hexPart "signature=" t) :
    k = l ∧ s = t := by
  have hkeys {k : Bytes} {words : List Str} (hw : ∀ w ∈ words, w.head? ≠ some 'p') :
      (hexPart "public_key=" k ++ words).filter (fun w => w.head? = some 'p') = hexPart "public_key=" k := by
    have hnone : words.filter (fun w => w.head? = some 'p') = [] := by
      rw [List.filter_eq_nil_iff]
      intro w hm
      simpa using hw w hm
    rw [List.filter_append, hnone, List.append_nil, List.filter_eq_self]
    intro w hm
    rw [(mem_hexPart.mp hm).2]
    rfl
  have hsignature (s : Bytes) : ∀ w ∈ hexPart "signature=" s, w.head? ≠ some 'p' := by
    intro w hm
    rw [(mem_hexPart.mp hm).2]
    exact fun he => absurd (Option.some.inj he) (by decide)
  have hfilter := congrArg (List.filter (fun w => w.head? = some 'p')) h
  rw [hkeys (hsignature s), hkeys (hsignature t)] at hfilter
  rw [hfilter] at h
  exact ⟨hexPart_injective hfilter, hexPart_injective (List.append_cancel_left h)⟩

theorem unbroken_hexPart {name : String} (h : PythonText.Unbroken (str name)) {bytes : Bytes} :
    ∀ w ∈ hexPart name bytes, w ≠ [] ∧ PythonText.Unbroken w := by
  intro w hw
  obtain ⟨hb, rfl⟩ := mem_hexPart.mp hw
  have hhex : hex bytes ≠ [] := fun he => hb (hex_injective (t := []) he)
  exact ⟨by simp [hhex], h.append (PythonListing.unbroken_hex bytes)⟩

theorem encodeMerge_injective {r s : Registration} (hfields : r.toAgentRegistration = s.toAgentRegistration)
    (h : encodeMerge r = encodeMerge s) : r.publicKey = s.publicKey ∧ r.signature = s.signature := by
  let parts (r : Registration) := hexPart "public_key=" r.publicKey ++ hexPart "signature=" r.signature
  have hwords (r : Registration) : ∀ w ∈ parts r, w ≠ [] ∧ PythonText.Unbroken w := by
    intro w hw
    rcases List.mem_append.mp hw with hw | hw
    · exact unbroken_hexPart (by decide) w hw
    · exact unbroken_hexPart (by decide) w hw
  have hsuffix : (parts r).flatMap (fun w => str " " ++ w) = (parts s).flatMap (fun w => str " " ++ w) := by
    rw [encodeMerge, encodeMerge, encodeRecordCommand_eq, encodeRecordCommand_eq, intercalate_space, intercalate_space,
      hfields] at h
    simp only [List.flatMap_append] at h
    simpa only [parts, List.flatMap_append] using
      List.append_cancel_left (List.append_cancel_left (List.append_cancel_left h))
  have hverb : str "MERGE" ≠ [] ∧ PythonText.Unbroken (str "MERGE") := ⟨by decide, by decide⟩
  have hsplit := congrArg (fun suffix => PythonText.wordsFrom [] (str "MERGE" ++ suffix)) hsuffix
  have hread (r : Registration) : PythonText.wordsFrom [] (str "MERGE" ++ (parts r).flatMap (fun w => str " " ++ w)) =
      str "MERGE" :: parts r := PythonText.wordsFrom_words _ _ hverb (hwords r)
  rw [hread, hread] at hsplit
  exact hexParts_injective (List.cons.inj hsplit).2

theorem carries_mergeRequest_iff (h : registration.revision < 2 ^ 64) :
    Carries registration (client.mergeRequest registration) ↔ Keeps client registration := by
  have hfields := signed_fields client registration
  rw [keeps_iff, BeaconClient.mergeRequest]
  cases client.protocol with
  | protobuf =>
      change HoldsFields (toProtoAgent (client.signed registration)) registration ↔ _
      constructor
      · intro hholds
        exact registration_ext hfields hholds.publicKey hholds.signature
      · intro hsigned
        rw [hsigned]
        exact holdsFields_toProtoAgent h
  | line =>
      change encodeMerge (client.signed registration) = encodeMerge registration ↔ _
      constructor
      · intro he
        obtain ⟨hk, hs⟩ := encodeMerge_injective hfields he
        exact registration_ext hfields hk hs
      · intro hsigned
        rw [hsigned]

theorem relayAll_relays (platform : Platform) (client : BeaconClient) (engine : Engine)
    (registrations : List Registration) :
    (relayAll platform client engine registrations).relays =
      registrations.map (fun r => ⟨r, client.mergeRequest r⟩) := by
  have hloop (state : Loop) : (registrations.foldl (relayStep platform client) state).relays =
      state.relays ++ registrations.map (fun r => ⟨r, client.mergeRequest r⟩) := by
    induction registrations generalizing state with
    | nil => simp
    | cons r rs ih =>
        rw [List.foldl_cons, ih, List.map_cons]
        simp [relayStep]
  exact hloop { engine := engine }

theorem forall_mem_of_mapM {α β : Type} {f : α → Option β} {P : β → Prop} (hf : ∀ a b, f a = some b → P b)
    {l : List α} {m : List β} (h : l.mapM f = some m) : ∀ b ∈ m, P b := by
  have hpairs := forall₂_of_mapM h
  clear h
  induction hpairs with
  | nil => exact nofun
  | cons hfirst _ ih => exact List.forall_mem_cons.mpr ⟨hf _ _ hfirst, ih⟩

theorem syncPull_revision {engine : Engine} {afterRevision : UInt64} {limit : Int} {registrations : List Registration}
    (h : syncPull platform client engine afterRevision limit = some registrations) :
    ∀ r ∈ registrations, r.revision < 2 ^ 64 := by
  have hread (agent : ProtobufControl.AgentRegistration) (r : Registration) (hr : fromProtoAgent agent = some r) :
      r.revision < 2 ^ 64 := (holdsFields_fromProtoAgent hr).revision ▸ agent.revision.toNat_lt
  rw [syncPull] at h
  split at h
  · split at h
    · exact forall_mem_of_mapM hread h
    · cases h
  · split at h
    · exact forall_mem_of_mapM (fun record => hread (toProto record)) h
    · cases h
      exact nofun

def pullList (platform : Platform) (here remote : Side) (limit : Int) : List Registration :=
  (syncPull platform remote.client remote.engine here.engine.highestRevision limit).getD []

def pushList (platform : Platform) (here remote : Side) (limit : Int) : List Registration :=
  match syncPull platform remote.client remote.engine here.engine.highestRevision limit with
  | none => []
  | some registrations =>
      (syncPull platform here.client (relayAll platform here.client here.engine registrations).engine
        remote.engine.highestRevision limit).getD []

theorem syncWithPeer_relays (platform : Platform) (here remote : Side) (limit : Int) :
    (syncWithPeer platform here remote limit).inbound =
        (pullList platform here remote limit).map (fun r => ⟨r, here.client.mergeRequest r⟩) ∧
      (syncWithPeer platform here remote limit).outbound =
        (pushList platform here remote limit).map (fun r => ⟨r, remote.client.mergeRequest r⟩) := by
  rw [syncWithPeer, pullList, pushList]
  cases syncPull platform remote.client remote.engine here.engine.highestRevision limit with
  | none => exact ⟨rfl, rfl⟩
  | some registrations =>
      dsimp only
      cases syncPull platform here.client (relayAll platform here.client here.engine registrations).engine
          remote.engine.highestRevision limit with
      | none => exact ⟨relayAll_relays _ _ _ _, rfl⟩
      | some pushed => exact ⟨relayAll_relays _ _ _ _, relayAll_relays _ _ _ _⟩

theorem getD_revision {engine : Engine} {afterRevision : UInt64} {limit : Int} {r : Registration}
    (h : r ∈ (syncPull platform client engine afterRevision limit).getD []) : r.revision < 2 ^ 64 := by
  cases hpull : syncPull platform client engine afterRevision limit with
  | none =>
      rw [hpull] at h
      cases h
  | some registrations =>
      rw [hpull] at h
      exact syncPull_revision hpull r h

theorem pushList_revision {here remote : Side} {limit : Int} {r : Registration}
    (h : r ∈ pushList platform here remote limit) : r.revision < 2 ^ 64 := by
  rw [pushList] at h
  split at h
  · cases h
  · exact getD_revision h

/-- A call relays records untouched exactly when neither loop meets a record
that its client would sign anew. -/
theorem sync_untouched_iff (platform : Platform) (here remote : Side) (limit : Int) :
    Untouched (syncWithPeer platform here remote limit) ↔
      (∀ r ∈ pullList platform here remote limit, Keeps here.client r) ∧
        ∀ r ∈ pushList platform here remote limit, Keeps remote.client r := by
  obtain ⟨hinbound, houtbound⟩ := syncWithPeer_relays platform here remote limit
  have hlist {client : BeaconClient} {registrations : List Registration}
      (hrevision : ∀ r ∈ registrations, r.revision < 2 ^ 64) :
      (∀ relay ∈ registrations.map (fun r => (⟨r, client.mergeRequest r⟩ : Relay)), Carries relay.pulled relay.sent) ↔
        ∀ r ∈ registrations, Keeps client r := by
    rw [List.forall_mem_map]
    exact forall₂_congr fun r hr => carries_mergeRequest_iff (hrevision r hr)
  rw [Untouched, hinbound, houtbound, List.forall_mem_append]
  exact and_congr (hlist fun r hr => getD_revision hr) (hlist fun r hr => pushList_revision hr)

def foreignRegistration : Registration where
  agentId := str "agent-1"
  nodeId := str "node-2"
  endpoint := str "127.0.0.1:9001"
  metadata := ⟨[], List.nodup_nil⟩
  revision := 4
  publicKey := List.replicate 32 9
  signature := List.replicate 64 9

def ownIdentity : AgentIdentity := ⟨List.replicate 32 1, fun _ => List.replicate 64 2⟩

def identitySide : Side := ⟨{ identity := some ownIdentity }, { node := ⟨⟨[], []⟩, none⟩ }⟩

def foreignSide : Side := ⟨{}, { node := ⟨⟨[keyedRecord foreignRegistration], []⟩, none⟩ }⟩

theorem fromProtoAgent_foreign :
    fromProtoAgent (toProto (keyedRecord foreignRegistration)) = some foreignRegistration := by
  have hproto : toProto (keyedRecord foreignRegistration) = toProtoAgent foreignRegistration := by
    rw [toProto, keyedRecord, decodeHex_encodeHex, decodeHex_encodeHex]
    rfl
  rw [hproto, fromProtoAgent, toProtoAgent, decode_encode, decode_encode, decode_encode]
  rfl

theorem pullList_foreign :
    pullList ⟨none, insertionRevisionSort⟩ identitySide foreignSide 256 = [foreignRegistration] := by
  have hsnapshot : foreignSide.engine.pullSnapshot ⟨none, insertionRevisionSort⟩ identitySide.engine.highestRevision 256 =
      [toProto (keyedRecord foreignRegistration)] := rfl
  have hpull : syncPull ⟨none, insertionRevisionSort⟩ foreignSide.client foreignSide.engine
      identitySide.engine.highestRevision 256 = some [foreignRegistration] := by
    change (foreignSide.engine.pullSnapshot ⟨none, insertionRevisionSort⟩ identitySide.engine.highestRevision
      256).mapM fromProtoAgent = _
    rw [hsnapshot, List.mapM_cons, fromProtoAgent_foreign]
    rfl
  rw [pullList, hpull]
  rfl

theorem sync_signs_foreign :
    ¬ Untouched (syncWithPeer ⟨none, insertionRevisionSort⟩ identitySide foreignSide 256) := by
  intro h
  have hrelay := h ⟨foreignRegistration, identitySide.client.mergeRequest foreignRegistration⟩ (by
    rw [(syncWithPeer_relays _ _ _ _).1, pullList_foreign]
    exact List.mem_append_left _ (List.mem_singleton_self _))
  have hrevision : foreignRegistration.revision < 2 ^ 64 := by decide
  have hkeeps : Keeps identitySide.client foreignRegistration := (carries_mergeRequest_iff hrevision).mp hrelay
  exact absurd (hkeeps ownIdentity rfl).1 (by decide)

end BeaconNode.SdkSync
