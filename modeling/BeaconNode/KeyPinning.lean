import BeaconNode.ControlRuns

namespace BeaconNode.KeyPinning

open Words TextStream Records Crypto Identity Registry KeyedList LineProtocol ControlRuns Runs

/-- Every record whose agent has a pinned key carries that key. -/
def StoresAgree (node : Node) : Prop :=
  ∀ identity, node.identity = some identity → ∀ r ∈ node.registry.records, ∀ key,
    identity.pinnedKey r.agentId = some key → decodeHex r.publicKeyHex = key

/-- What an engine with an identity service that asks for signatures keeps
true whether or not the stores agree. -/
structure Attended (node : Node) : Prop where
  attached : ∃ identity, node.identity = some identity
  unique : OneRecordPerAgent node.registry.records
  keyed : ∀ r ∈ node.registry.records, r.publicKeyHex ≠ []

/-- The line submits a validly signed record for an agent that the registry
does not hold, under another key than the one pinned for it. -/
def Rekeys (platform : Platform) (protocol : ControlProtocol) (node : Node) : Event → Prop
  | .purge _ => False
  | .line now text => ∃ record identity, lineOperation protocol now text = .submit record ∧
      node.identity = some identity ∧ verifyAgentSignature platform.sodium record = .valid ∧
        findRecord record.agentId node.registry.records = none ∧
          identity.checkKeyConsistency record.agentId (decodeHex record.publicKeyHex) = false

variable {platform : Platform} {protocol : ControlProtocol} {node next : Node}

theorem StoresAgree.of_sub (h : StoresAgree node) (hi : next.identity = node.identity)
    (hr : ∀ r ∈ next.registry.records, ∃ s ∈ node.registry.records,
      r.agentId = s.agentId ∧ r.publicKeyHex = s.publicKeyHex) : StoresAgree next := by
  intro identity hid r hrn key hp
  obtain ⟨s, hs, ha, hk⟩ := hr r hrn
  rw [hk]
  exact h identity (hi ▸ hid) s hs key (ha ▸ hp)

theorem handleHeartbeat_sub {lifecycle : LifecycleConfig} {now : TimePoint} {agentId : Bytes} {revision : UInt64}
    {r : AgentRecord} (h : r ∈ (handleHeartbeat lifecycle now node agentId revision).1.registry.records) :
    ∃ s ∈ node.registry.records, r.agentId = s.agentId ∧ r.publicKeyHex = s.publicKeyHex := by
  rcases mem_handleHeartbeat h with h | ⟨-, -, existing, hm, -, hx⟩
  · exact ⟨r, h, rfl, rfl⟩
  · refine ⟨existing, hm, ?_, ?_⟩
    · rw [hx]
    · rw [hx]

theorem handleHeartbeat_identity (lifecycle : LifecycleConfig) (now : TimePoint) (node : Node) (agentId : Bytes)
    (revision : UInt64) : (handleHeartbeat lifecycle now node agentId revision).1.identity = node.identity := rfl

theorem checkKeyConsistency_iff {identity : IdentityService} {agentId publicKey : Bytes} :
    identity.checkKeyConsistency agentId publicKey = true ↔
      ∀ key, identity.pinnedKey agentId = some key → publicKey = key := by
  simp only [IdentityService.checkKeyConsistency]
  cases identity.pinnedKey agentId with
  | none => simp
  | some existing =>
      simp only [decide_eq_true_eq, Option.some.injEq, forall_eq']
      exact eq_comm

/-- An accepted record leaves the stores in agreement exactly when its key is
the pinned one or none is pinned. -/
theorem storesAgree_acceptRecord {identity : IdentityService} {record : AgentRecord}
    (hi : node.identity = some identity) (hu : OneRecordPerAgent node.registry.records)
    (hv : verifyAgentSignature platform.sodium record = .valid) (h : StoresAgree node) :
    StoresAgree (acceptRecord platform.sodium node record) ↔
      identity.checkKeyConsistency record.agentId (decodeHex record.publicKeyHex) = true := by
  have hid : (acceptRecord platform.sodium node record).identity =
      some (identity.verifyAndRegister platform.sodium record).1 := by
    simp only [acceptRecord, hi, registerIdentity_of_valid hv]
  have hu' : OneRecordPerAgent (acceptRecord platform.sodium node record).registry.records := put_nodup hu
  have hfind (a : Bytes) : findRecord a (acceptRecord platform.sodium node record).registry.records =
      if a = record.agentId then some record else findRecord a node.registry.records :=
    findRecord_storeRecord record a node.registry.records
  rw [checkKeyConsistency_iff]
  constructor
  · intro hn key hp
    have hself := hfind record.agentId
    rw [if_pos rfl] at hself
    refine hn _ hid record (lookup_mem hself) key ?_
    simp [pinnedKey_verifyAndRegister, hp]
  · intro hc identity' hid' r hr key hp
    obtain rfl : _ = identity' := Option.some.inj (hid.symm.trans hid')
    have hr' := hu'.findRecord_of_mem hr
    rw [hfind] at hr'
    rw [pinnedKey_verifyAndRegister] at hp
    by_cases ha : r.agentId = record.agentId
    · rw [if_pos ha, Option.some.injEq] at hr'
      subst hr'
      cases hk : identity.pinnedKey record.agentId with
      | none => simpa [hv, hk] using hp
      | some pinned =>
          have he : pinned = key := by simpa [hk] using hp
          exact he ▸ hc pinned hk
    · rw [if_neg ha] at hr'
      rw [if_neg (fun hh => ha hh.2.1)] at hp
      exact h identity hi r (lookup_mem hr') key hp

theorem checkKeyConsistency_of_held {identity : IdentityService} {record existing : AgentRecord}
    (hi : node.identity = some identity) (ht : Attended node) (h : StoresAgree node)
    (hv : verifyAgentSignature platform.sodium record = .valid)
    (ha : admits node.registry.records record = true)
    (hf : findRecord record.agentId node.registry.records = some existing) :
    identity.checkKeyConsistency record.agentId (decodeHex record.publicKeyHex) = true := by
  have hk := (admits_iff.mp ha existing hf).2
  have hsame : existing.publicKeyHex = record.publicKeyHex := by
    simpa [conflictingKeys, ht.keyed existing (lookup_mem hf), key_ne_nil_of_valid hv] using hk
  rw [checkKeyConsistency_iff]
  intro key hp
  rw [← hsame]
  apply h identity hi existing (lookup_mem hf) key
  rw [findRecord_agentId hf]
  exact hp

theorem storesAgree_submit {record : AgentRecord} {now : TimePoint} {text : Bytes}
    (ht : protocol.trust.requireSignatures = true) (hat : Attended node) (h : StoresAgree node)
    (ho : lineOperation protocol now text = .submit record) :
    StoresAgree (submitEffect platform.sodium protocol.trust node record) ↔
      ¬ Rekeys platform protocol node (.line now text) := by
  obtain ⟨identity, hi⟩ := hat.attached
  by_cases hc : (signatureAllowed platform.sodium protocol.trust record &&
      admits node.registry.records record) = true
  · obtain ⟨hs, ha⟩ := Bool.and_eq_true_iff.mp hc
    have hv := valid_of_signatureAllowed ht hs
    rw [submitEffect, if_pos hc, storesAgree_acceptRecord hi hat.unique hv h]
    constructor
    · rintro hk ⟨record', identity', ho', hi', -, -, hb⟩
      obtain rfl : record = record' := Operation.submit.inj (ho.symm.trans ho')
      obtain rfl : identity = identity' := Option.some.inj (hi.symm.trans hi')
      rw [hk] at hb
      cases hb
    · intro hn
      cases hf : findRecord record.agentId node.registry.records with
      | some existing => exact checkKeyConsistency_of_held hi hat h hv ha hf
      | none =>
          by_contra hb
          exact hn ⟨record, identity, ho, hi, hv, hf, Bool.eq_false_iff.mpr hb⟩
  · rw [submitEffect, if_neg hc]
    refine iff_of_true h ?_
    rintro ⟨record', identity', ho', -, hv, hf, -⟩
    obtain rfl : record = record' := Operation.submit.inj (ho.symm.trans ho')
    refine hc (Bool.and_eq_true_iff.mpr ⟨signatureAllowed_of_valid hv, ?_⟩)
    simp [admits, hf]

theorem storesAgree_advance (ht : protocol.trust.requireSignatures = true) (event : Event) (hat : Attended node)
    (h : StoresAgree node) :
    StoresAgree (advance platform protocol node event) ↔ ¬ Rekeys platform protocol node event := by
  cases event with
  | purge now =>
      refine iff_of_true (h.of_sub rfl fun r hr => ?_) (fun hr => hr)
      exact ⟨r, List.mem_of_mem_filter hr, rfl, rfl⟩
  | line now text =>
      rw [advance_line]
      cases ho : lineOperation protocol now text with
      | submit record => exact storesAgree_submit ht hat h ho
      | refresh agentId revision =>
          refine iff_of_true (h.of_sub (handleHeartbeat_identity _ _ _ _ _) fun r hr => handleHeartbeat_sub hr) ?_
          rintro ⟨record, identity, ho', -⟩
          rw [ho] at ho'
          cases ho'
      | query =>
          refine iff_of_true h ?_
          rintro ⟨record, identity, ho', -⟩
          rw [ho] at ho'
          cases ho'

theorem attended_submitEffect {record : AgentRecord} (ht : protocol.trust.requireSignatures = true)
    (h : Attended node) : Attended (submitEffect platform.sodium protocol.trust node record) := by
  refine ⟨?_, submitEffect_oneRecordPerAgent _ _ _ h.unique, fun r hr => ?_⟩
  · obtain ⟨identity, hi⟩ := h.attached
    simp only [submitEffect]
    split
    next hc =>
      have hv := valid_of_signatureAllowed ht (Bool.and_eq_true_iff.mp hc).1
      refine ⟨(identity.verifyAndRegister platform.sodium record).1, ?_⟩
      simp only [acceptRecord, hi, registerIdentity_of_valid hv]
    next => exact ⟨identity, hi⟩
  · rcases mem_submitEffect hr with hr | ⟨rfl, hs⟩
    · exact h.keyed r hr
    · exact key_ne_nil_of_valid (valid_of_signatureAllowed ht hs)

theorem attended_advance (ht : protocol.trust.requireSignatures = true) (event : Event) (h : Attended node) :
    Attended (advance platform protocol node event) := by
  have hu := advance_oneRecordPerAgent platform protocol event h.unique
  cases event with
  | purge now => exact ⟨h.attached, hu, fun r hr => h.keyed r (List.mem_of_mem_filter hr)⟩
  | line now text =>
      rw [advance_line] at hu ⊢
      cases ho : lineOperation protocol now text with
      | submit record => exact attended_submitEffect ht h
      | refresh agentId revision =>
          rw [ho] at hu
          refine ⟨h.attached, hu, fun r hr => ?_⟩
          obtain ⟨s, hs, -, hk⟩ := handleHeartbeat_sub hr
          rw [hk]
          exact h.keyed s hs
      | query => exact h

/-- The trust store and the registry agree in every state of a run exactly
when no line of it brings an agent back under another key. -/
theorem storesAgree_iff_no_rekeying (platform : Platform) (protocol : ControlProtocol)
    (ht : protocol.trust.requireSignatures = true) (events : List Event) :
    Always (advance platform protocol) StoresAgree { identity := some {} } events ↔
      Along (advance platform protocol) (fun node event => ¬ Rekeys platform protocol node event)
        { identity := some {} } events := by
  apply always_iff_along (I := Attended) (A := fun _ _ => True)
  · exact ⟨⟨_, rfl⟩, List.nodup_nil, by simp⟩
  · intro identity _ r hr
    simp at hr
  · intro node event hi _
    exact attended_advance ht event hi
  · intro node event hi _ hp
    exact storesAgree_advance ht event hi hp
  · intro done event _
    trivial

def keyedRecord (digit : UInt8) (revision : UInt64) : AgentRecord :=
  { agentId := ascii "agent-1", nodeId := ascii "node-1", endpoint := ascii "127.0.0.1:9000", revision := revision
    expiresAt := 0, publicKeyHex := List.replicate 64 digit, signatureHex := List.replicate 128 digit }

def registerLine (record : AgentRecord) : Bytes := ascii "REGISTER" ++ (encodeAgentLine record).drop 5

/-- A scheme in which the one signature of a key is the key twice. -/
def doublingPlatform : Platform := ⟨some (fun signature _ key => signature = key ++ key), insertionRevisionSort⟩

def strictProtocol : ControlProtocol := { trust := ⟨true⟩ }

def expireAndReturn : List Event :=
  [.line 0 (registerLine (keyedRecord 48 1)), .purge (minutes 1),
    .line (minutes 1) (registerLine (keyedRecord 49 2))]

theorem storesAgree_iff_no_rekeying_expireAndReturn :
    Always (advance doublingPlatform strictProtocol) StoresAgree { identity := some {} } expireAndReturn ↔
      Along (advance doublingPlatform strictProtocol)
        (fun node event => ¬ Rekeys doublingPlatform strictProtocol node event)
        { identity := some {} } expireAndReturn :=
  storesAgree_iff_no_rekeying doublingPlatform strictProtocol rfl expireAndReturn

def returnedRecord : AgentRecord := (keyedRecord 49 2).restamp (minutes 1 + milliseconds 30000)

def pinnedIdentity : IdentityService := ⟨[(ascii "agent-1", List.replicate 32 0)]⟩

theorem expireAndReturn_stores :
    (expireAndReturn.foldl (advance doublingPlatform strictProtocol) { identity := some {} }).registry.records =
        [returnedRecord] ∧
      (expireAndReturn.foldl (advance doublingPlatform strictProtocol) { identity := some {} }).identity =
        some pinnedIdentity := by
  decide +kernel

/-- The purge forgets the first key and the trust store does not: the agent
comes back under a second key, which is accepted and not checked. -/
theorem expireAndReturn_not_storesAgree :
    strictProtocol.trust.requireSignatures = true ∧
      ¬ Always (advance doublingPlatform strictProtocol) StoresAgree { identity := some {} } expireAndReturn := by
  refine ⟨rfl, fun h => ?_⟩
  obtain ⟨hr, hi⟩ := expireAndReturn_stores
  have hd : decodeHex returnedRecord.publicKeyHex = List.replicate 32 0 :=
    h.last pinnedIdentity hi returnedRecord (by rw [hr]; exact List.mem_singleton_self _) _ (by decide +kernel)
  exact absurd hd (by decide +kernel)

inductive Call
  | upsert (record : AgentRecord)
  | refreshHeartbeat (agentId : Bytes) (expiresAt : TimePoint) (revision : UInt64)

def call (registry : AgentRegistry) : Call → AgentRegistry
  | .upsert record => (registry.upsert record).1
  | .refreshHeartbeat agentId expiresAt revision => (registry.refreshHeartbeat agentId expiresAt revision).1

def keyOf (registry : AgentRegistry) (agentId : Bytes) : Option Bytes :=
  (registry.find agentId).map AgentRecord.publicKeyHex

theorem keyOf_upsert {registry : AgentRegistry} {agentId key : Bytes} (record : AgentRecord)
    (h : keyOf registry agentId = some key) (hne : key ≠ []) :
    keyOf (registry.upsert record).1 agentId = some key ∨ keyOf (registry.upsert record).1 agentId = some [] := by
  simp only [keyOf, AgentRegistry.find] at h ⊢
  rw [upsert_eq]
  split
  next ha =>
    rw [findRecord_storeRecord]
    by_cases he : agentId = record.agentId
    · subst he
      obtain ⟨existing, hf, rfl⟩ := Option.map_eq_some_iff.mp h
      have hk := (admits_iff.mp ha existing hf).2
      rw [if_pos rfl, Option.map_some, Option.some.injEq, Option.some.injEq]
      by_cases hr : record.publicKeyHex = []
      · exact Or.inr hr
      · left
        have hsame : existing.publicKeyHex = record.publicKeyHex := by
          simpa [conflictingKeys, hne, hr] using hk
        exact hsame.symm
    · rw [if_neg he]
      exact Or.inl h
  next => exact Or.inl h

theorem keyOf_refreshHeartbeat (registry : AgentRegistry) (agentId a : Bytes) (expiresAt : TimePoint)
    (revision : UInt64) : keyOf (registry.refreshHeartbeat agentId expiresAt revision).1 a = keyOf registry a := by
  simp only [keyOf, AgentRegistry.find, AgentRegistry.refreshHeartbeat, refreshRecords_eq]
  cases hf : findRecord agentId registry.records with
  | none => rfl
  | some existing =>
      by_cases hr : existing.revision ≤ revision
      · simp only [hr, if_true, findRecord_refresh]
        by_cases ha : a = agentId
        · subst ha
          simp [hf]
        · simp [ha]
      · simp [hr]

theorem keyOf_call {registry : AgentRegistry} {agentId key : Bytes} (c : Call)
    (h : keyOf registry agentId = some key) (hne : key ≠ []) :
    keyOf (call registry c) agentId = some key ∨ keyOf (call registry c) agentId = some [] := by
  cases c with
  | upsert record => exact keyOf_upsert record h hne
  | refreshHeartbeat a expiresAt revision =>
      left
      rw [call, keyOf_refreshHeartbeat]
      exact h

theorem keyOf_calls {registry : AgentRegistry} {agentId key : Bytes} (later : List Call)
    (h : keyOf registry agentId = some key) (hne : key ≠ []) :
    keyOf (later.foldl call registry) agentId = some key ∨
      ∃ between, between <+: later ∧ keyOf (between.foldl call registry) agentId = some [] := by
  induction later generalizing registry with
  | nil => exact Or.inl h
  | cons c later ih =>
      rcases keyOf_call c h hne with hk | hk
      · rcases ih hk with hl | ⟨between, hb, hl⟩
        · exact Or.inl hl
        · exact Or.inr ⟨c :: between, List.cons_prefix_cons.mpr ⟨rfl, hb⟩, hl⟩
      · exact Or.inr ⟨[c], by simp, hk⟩

/-- A record keeps its key for as long as no record without a key takes its
place. -/
theorem key_kept_or_cleared (earlier later : List Call) (agentId key : Bytes)
    (h : keyOf (earlier.foldl call {}) agentId = some key) (hne : key ≠ []) :
    keyOf ((earlier ++ later).foldl call {}) agentId = some key ∨
      ∃ between, between <+: later ∧ keyOf ((earlier ++ between).foldl call {}) agentId = some [] := by
  simp only [List.foldl_append]
  exact keyOf_calls later h hne

def keylessRecord (revision : UInt64) : AgentRecord :=
  { keyedRecord 48 revision with publicKeyHex := [], signatureHex := [] }

theorem key_kept_or_cleared_keyless :
    keyOf (([.upsert (keyedRecord 48 1)] ++ [.upsert (keylessRecord 2)] : List Call).foldl call {})
        (ascii "agent-1") = some (List.replicate 64 48) ∨
      ∃ between, between <+: [.upsert (keylessRecord 2)] ∧
        keyOf (([.upsert (keyedRecord 48 1)] ++ between : List Call).foldl call {}) (ascii "agent-1") = some [] :=
  key_kept_or_cleared [.upsert (keyedRecord 48 1)] [.upsert (keylessRecord 2)] (ascii "agent-1")
    (List.replicate 64 48) (by decide) (by decide)

/-- A keyless record in between lets a second key replace the first. -/
theorem key_replaced_through_keyless :
    ∃ (earlier later : List Call) (agentId key other : Bytes), key ≠ [] ∧ other ≠ [] ∧ other ≠ key ∧
      keyOf (earlier.foldl call {}) agentId = some key ∧
        keyOf ((earlier ++ later).foldl call {}) agentId = some other :=
  ⟨[.upsert (keyedRecord 48 1)], [.upsert (keylessRecord 2), .upsert (keyedRecord 49 3)], ascii "agent-1",
    List.replicate 64 48, List.replicate 64 49, by decide, by decide, by decide, by decide, by decide⟩

end BeaconNode.KeyPinning
