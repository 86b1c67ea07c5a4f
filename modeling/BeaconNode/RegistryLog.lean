import BeaconNode.Registry
import BeaconNode.VersionedLog

namespace BeaconNode.RegistryLog

open Words Records Registry KeyedList VersionedLog

def revisionOf (agentId : Bytes) (records : List AgentRecord) : WithBot UInt64 :=
  match findRecord agentId records with
  | none => ⊥
  | some r => r.revision

def loggedRevision (agentId : Bytes) (log : List AgentRecord) : WithBot UInt64 :=
  latest AgentRecord.agentId AgentRecord.revision agentId log

variable {agentId : Bytes} {records others log : List AgentRecord} {record r : AgentRecord}

theorem revisionOf_none (h : findRecord agentId records = none) : revisionOf agentId records = ⊥ := by
  simp [revisionOf, h]

theorem revisionOf_some (h : findRecord agentId records = some r) : revisionOf agentId records = r.revision := by
  simp [revisionOf, h]

theorem sameRevisions_iff : SameRevisions records others ↔ ∀ a, revisionOf a records = revisionOf a others := by
  refine forall_congr' fun a => ?_
  cases hr : findRecord a records with
  | none =>
      rw [revisionOf_none hr]
      cases ho : findRecord a others with
      | none => simp [revisionOf_none ho]
      | some s => simp [revisionOf_some ho]
  | some r =>
      rw [revisionOf_some hr]
      cases ho : findRecord a others with
      | none => simp [revisionOf_none ho]
      | some s => simp [revisionOf_some ho, WithBot.coe_inj]

theorem revisionOf_storeRecord (a : Bytes) (record : AgentRecord) (records : List AgentRecord) :
    revisionOf a (storeRecord record records) =
      if a = record.agentId then (record.revision : WithBot UInt64) else revisionOf a records := by
  by_cases ha : a = record.agentId
  · have hself : findRecord a (storeRecord record records) = some record := by
      rw [findRecord_storeRecord, if_pos ha]
    rw [revisionOf_some hself, if_pos ha]
  · rw [revisionOf, findRecord_storeRecord, if_neg ha, if_neg ha, revisionOf]

theorem revisionOf_le_of_admits (h : admits records record = true) :
    revisionOf record.agentId records ≤ record.revision := by
  cases hf : findRecord record.agentId records with
  | none => simp [revisionOf_none hf]
  | some existing =>
      rw [revisionOf_some hf, WithBot.coe_le_coe]
      exact (admits_iff.mp h existing hf).1

theorem loggedRevision_append (a : Bytes) (log more : List AgentRecord) :
    loggedRevision a (log ++ more) = max (loggedRevision a log) (loggedRevision a more) :=
  latest_append

theorem loggedRevision_singleton (a : Bytes) (record : AgentRecord) :
    loggedRevision a [record] = if record.agentId = a then (record.revision : WithBot UInt64) else ⊥ :=
  latest_singleton

theorem revisionOf_storeRecord_of_admits (a : Bytes) (h : admits records record = true) :
    revisionOf a (storeRecord record records) = max (revisionOf a records) (loggedRevision a [record]) := by
  rw [revisionOf_storeRecord, loggedRevision_singleton]
  by_cases ha : a = record.agentId
  · subst ha
    rw [if_pos rfl, if_pos rfl, max_eq_right (revisionOf_le_of_admits h)]
  · rw [if_neg ha, if_neg (Ne.symm ha), max_eq_left bot_le]

theorem revisionOf_loadRecord (t : TimePoint) (a : Bytes) (records : List AgentRecord) (record : AgentRecord) :
    revisionOf a (loadRecord t records record) = max (revisionOf a records) (loggedRevision a [record]) := by
  rw [loggedRevision_singleton]
  cases hf : findRecord record.agentId records with
  | none =>
      rw [loadRecord_fresh hf, revisionOf_storeRecord, restamp_agentId, restamp_revision]
      by_cases ha : a = record.agentId
      · subst ha
        rw [revisionOf_none hf, if_pos rfl, max_eq_right bot_le]
      · rw [if_neg ha, if_neg (Ne.symm ha), max_eq_left bot_le]
  | some existing =>
      rw [loadRecord_held hf]
      by_cases ha : a = record.agentId
      · subst ha
        rw [revisionOf_some hf, if_pos rfl]
        split
        next hlt => rw [revisionOf_storeRecord, if_pos rfl, max_eq_right (WithBot.coe_le_coe.mpr hlt.le)]
        next hle => rw [revisionOf_some hf, max_eq_left (WithBot.coe_le_coe.mpr (not_lt.mp hle))]
      · rw [if_neg (Ne.symm ha), max_eq_left bot_le]
        split
        next => rw [revisionOf_storeRecord, if_neg ha]
        next => rfl

theorem revisionOf_foldl_loadRecord (t : TimePoint) (a : Bytes) (records log : List AgentRecord) :
    revisionOf a (log.foldl (loadRecord t) records) = max (revisionOf a records) (loggedRevision a log) := by
  induction log generalizing records with
  | nil => simp [loggedRevision]
  | cons r rs ih =>
      rw [List.foldl_cons, ih, revisionOf_loadRecord, max_assoc, ← loggedRevision_append, List.singleton_append]

/-- Loading a log into an empty registry leaves each agent at its highest
logged revision, whatever the order of the log. -/
theorem revisionOf_loadFromPersistence (now : TimePoint) (a : Bytes) (log : List AgentRecord) :
    revisionOf a (({} : AgentRegistry).loadFromPersistence now log).records = loggedRevision a log := by
  rw [AgentRegistry.loadFromPersistence, revisionOf_foldl_loadRecord]
  exact max_eq_right bot_le

end BeaconNode.RegistryLog
