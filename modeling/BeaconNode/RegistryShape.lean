import BeaconNode.ControlRuns
import Mathlib.Data.Finset.Card
import Mathlib.Data.Finset.Dedup

namespace BeaconNode.RegistryShape

open Words Records Crypto Identity Registry KeyedList ControlRuns Runs

/-- The calls that change a registry. Each merge comes with the identity
service of its caller, or with none. -/
inductive Call
  | upsert (record : AgentRecord)
  | refreshHeartbeat (agentId : Bytes) (expiresAt : TimePoint) (revision : UInt64)
  | merge (identity : Option IdentityService) (records : List AgentRecord)
  | purgeExpired (now : TimePoint)
  | loadFromPersistence (now : TimePoint) (records : List AgentRecord)

def call (sodium : Option Verifier) (registry : AgentRegistry) : Call → AgentRegistry
  | .upsert record => (registry.upsert record).1
  | .refreshHeartbeat agentId expiresAt revision => (registry.refreshHeartbeat agentId expiresAt revision).1
  | .merge identity records => (merge sodium ⟨registry, identity⟩ records).1.registry
  | .purgeExpired now => (registry.purgeExpired now).1
  | .loadFromPersistence now records => registry.loadFromPersistence now records

def Call.Purges : Call → Prop
  | .purgeExpired _ => True
  | .upsert _ | .refreshHeartbeat _ _ _ | .merge _ _ | .loadFromPersistence _ _ => False

/-- What the readers of a registry rely on. -/
structure WellFormed (registry : AgentRegistry) : Prop where
  unique : OneRecordPerAgent registry.list
  activeAgents : registry.stats.activeAgents = (registry.list.map AgentRecord.agentId).toFinset.card
  find_iff : ∀ agentId r, registry.find agentId = some r ↔ r ∈ registry.list ∧ r.agentId = agentId
  highest_ge : ∀ r ∈ registry.list, r.revision ≤ registry.stats.highestRevision
  highest_mem : registry.list ≠ [] → ∃ r ∈ registry.list, r.revision = registry.stats.highestRevision
  highest_empty : registry.list = [] → registry.stats.highestRevision = 0

variable {registry : AgentRegistry} {records : List AgentRecord}

theorem upsert_unique (record : AgentRecord) (h : OneRecordPerAgent registry.records) :
    OneRecordPerAgent (registry.upsert record).1.records := by
  rw [upsert_eq]
  split
  · exact put_nodup h
  · exact h

theorem mergeRecord_unique (sodium : Option Verifier) (node : Node) (record : AgentRecord)
    (h : OneRecordPerAgent node.registry.records) :
    OneRecordPerAgent (mergeRecord sodium node record).1.registry.records := by
  simp only [mergeRecord]
  split
  · exact upsert_unique record h
  · split
    · exact h
    · exact upsert_unique record h

theorem merge_unique (sodium : Option Verifier) (node : Node) (records : List AgentRecord)
    (h : OneRecordPerAgent node.registry.records) :
    OneRecordPerAgent (merge sodium node records).1.registry.records := by
  rw [merge_node]
  induction records generalizing node with
  | nil => exact h
  | cons r rs ih => exact ih _ (mergeRecord_unique sodium node r h)

theorem loadRecord_unique (farFuture : TimePoint) (record : AgentRecord) (h : OneRecordPerAgent records) :
    OneRecordPerAgent (loadRecord farFuture records record) := by
  cases hf : findRecord record.agentId records with
  | none =>
      rw [loadRecord_fresh hf]
      exact put_nodup h
  | some existing =>
      rw [loadRecord_held hf]
      split
      · exact put_nodup h
      · exact h

/-- The replay rule does not look at keys, but it only moves revisions up. -/
theorem loadRecord_grows (farFuture : TimePoint) (record : AgentRecord) :
    Grows records (loadRecord farFuture records record) := by
  cases hf : findRecord record.agentId records with
  | none =>
      rw [loadRecord_fresh hf]
      apply storeRecord_grows_of_le
      intro existing he
      rw [restamp_agentId, hf] at he
      cases he
  | some existing =>
      rw [loadRecord_held hf]
      split
      next hlt =>
        apply storeRecord_grows_of_le
        intro other ho
        obtain rfl : existing = other := Option.some.inj (hf.symm.trans ho)
        exact hlt.le
      next => exact Grows.refl _

theorem foldl_loadRecord (farFuture : TimePoint) (loaded : List AgentRecord) (h : OneRecordPerAgent records) :
    OneRecordPerAgent (loaded.foldl (loadRecord farFuture) records) ∧
      Grows records (loaded.foldl (loadRecord farFuture) records) := by
  induction loaded generalizing records with
  | nil => exact ⟨h, Grows.refl _⟩
  | cons r rs ih =>
      obtain ⟨hu, hg⟩ := ih (loadRecord_unique farFuture r h)
      exact ⟨hu, (loadRecord_grows farFuture r).trans hg⟩

theorem call_unique (sodium : Option Verifier) (c : Call) (h : OneRecordPerAgent registry.records) :
    OneRecordPerAgent (call sodium registry c).records := by
  cases c with
  | upsert record => exact upsert_unique record h
  | refreshHeartbeat agentId expiresAt revision =>
      rw [OneRecordPerAgent, call, refreshHeartbeat_agentIds]
      exact h
  | merge identity records => exact merge_unique sodium ⟨registry, identity⟩ records h
  | purgeExpired now => exact h.sublist (List.filter_sublist.map _)
  | loadFromPersistence now records => exact (foldl_loadRecord _ records h).1

theorem call_grows (sodium : Option Verifier) {c : Call} (hc : ¬ c.Purges)
    (h : OneRecordPerAgent registry.records) : Grows registry.records (call sodium registry c).records := by
  cases c with
  | upsert record => exact upsert_grows registry record
  | refreshHeartbeat agentId expiresAt revision => exact refreshHeartbeat_grows registry agentId expiresAt revision
  | merge identity records => exact merge_grows sodium ⟨registry, identity⟩ records
  | purgeExpired now => exact absurd trivial hc
  | loadFromPersistence now records => exact (foldl_loadRecord _ records h).2

theorem wellFormed_of_unique (h : OneRecordPerAgent registry.records) : WellFormed registry where
  unique := h
  activeAgents := by
    have hcard := List.toFinset_card_of_nodup h
    rw [List.length_map] at hcard
    exact hcard.symm
  find_iff agentId r := by
    constructor
    · intro hf
      exact ⟨lookup_mem hf, findRecord_agentId hf⟩
    · rintro ⟨hr, rfl⟩
      exact h.findRecord_of_mem hr
  highest_ge r hr := le_highestRevision hr
  highest_mem hne := by
    rcases highestRevision_mem registry.records with hz | hm
    · obtain ⟨r, hr⟩ := List.exists_mem_of_ne_nil _ hne
      have hle : r.revision ≤ 0 := hz ▸ le_highestRevision hr
      exact ⟨r, hr, (le_antisymm hle (uint64_zero_le _)).trans hz.symm⟩
    · exact hm
  highest_empty he := by
    rw [AgentRegistry.list] at he
    simp [AgentRegistry.stats, he, highestRevision]

/-- In every state that calls lead to, the registry is well formed, and no
call but a purge loses an agent or lowers a revision. -/
theorem calls_wellFormed (sodium : Option Verifier) (calls : List Call) :
    Always (call sodium) WellFormed {} calls ∧
      Along (call sodium)
        (fun registry c => ¬ c.Purges → Grows registry.records (call sodium registry c).records) {} calls := by
  have hunique : Always (call sodium) (fun registry => OneRecordPerAgent registry.records) {} calls := by
    refine always_of_step (Q := fun _ _ => True) List.nodup_nil ?_ fun _ _ _ => trivial
    intro registry c h _
    exact call_unique sodium c h
  constructor
  · exact hunique.imp fun registry h => wellFormed_of_unique h
  · intro done c hd hc
    exact call_grows sodium hc (hunique done ((List.prefix_append done [c]).trans hd))

end BeaconNode.RegistryShape
