import BeaconNode.LineProtocol
import BeaconNode.Runs

namespace BeaconNode.ControlRuns

open Words TextStream Records Crypto Identity Registry KeyedList LineProtocol Runs

/-- What happens to a node between starts: a line on its control port or a
turn of the purge loop, each with the clock reading it saw. -/
inductive Event
  | line (now : TimePoint) (text : Bytes)
  | purge (now : TimePoint)

def advance (platform : Platform) (protocol : ControlProtocol) (node : Node) : Event → Node
  | .line now text => (handleLine platform protocol now node text).1
  | .purge now => { node with registry := (node.registry.purgeExpired now).1 }

def lineOperation (protocol : ControlProtocol) (now : TimePoint) (text : Bytes) : Operation :=
  operation (parseCommand protocol.lifecycle now text)

theorem advance_line (platform : Platform) (protocol : ControlProtocol) (node : Node) (now : TimePoint)
    (text : Bytes) :
    advance platform protocol node (.line now text) =
      perform platform.sodium protocol now node (lineOperation protocol now text) :=
  handleLine_node platform protocol now node text

variable {node : Node} {r : AgentRecord}

theorem mem_submitEffect {sodium : Option Verifier} {trust : TrustConfig} {record : AgentRecord}
    (h : r ∈ (submitEffect sodium trust node record).registry.records) :
    r ∈ node.registry.records ∨ (r = record ∧ signatureAllowed sodium trust r = true) := by
  simp only [submitEffect] at h
  split at h
  next ha =>
    rcases mem_put h with rfl | h
    · exact Or.inr ⟨rfl, (Bool.and_eq_true_iff.mp ha).1⟩
    · exact Or.inl h
  next => exact Or.inl h

theorem findRecord_submitEffect (sodium : Option Verifier) (trust : TrustConfig) (node : Node) (record : AgentRecord)
    (a : Bytes) :
    findRecord a (submitEffect sodium trust node record).registry.records =
      if accepts sodium trust node record = true ∧ a = record.agentId then some record
      else findRecord a node.registry.records := by
  rw [submitEffect_eq]
  cases accepts sodium trust node record with
  | true => simp [acceptRecord, findRecord_storeRecord]
  | false => simp

theorem findRecord_submits (sodium : Option Verifier) (trust : TrustConfig) (node : Node) {records : List AgentRecord}
    (h : (records.map AgentRecord.agentId).Nodup) (a : Bytes) :
    findRecord a (records.foldl (submitEffect sodium trust) node).registry.records =
      match findRecord a records with
      | none => findRecord a node.registry.records
      | some r => if accepts sodium trust node r = true then some r else findRecord a node.registry.records := by
  have hother : ∀ (node : Node) (r : AgentRecord) (a : Bytes), a ≠ r.agentId →
      findRecord a (submitEffect sodium trust node r).registry.records = findRecord a node.registry.records := by
    intro node r a hne
    rw [findRecord_submitEffect, if_neg fun hr => hne hr.2]
  have hown : ∀ (node other : Node) (r : AgentRecord),
      findRecord r.agentId node.registry.records = findRecord r.agentId other.registry.records →
        findRecord r.agentId (submitEffect sodium trust node r).registry.records =
          findRecord r.agentId (submitEffect sodium trust other r).registry.records := by
    intro node other r hv
    rw [findRecord_submitEffect, findRecord_submitEffect, accepts, accepts, admits, admits, hv]
  have hview := view_foldl (submitEffect sodium trust) (fun a node => findRecord a node.registry.records) hother hown
    h a node
  rw [← findRecord] at hview
  rw [hview]
  cases hf : findRecord a records with
  | none => rfl
  | some r => simp only [findRecord_submitEffect, findRecord_agentId hf, and_true]

/-- The record is one of the node's, moved to a revision no lower than its
own. -/
def Raised (node : Node) (r : AgentRecord) : Prop :=
  ∃ existing ∈ node.registry.records, existing.revision ≤ r.revision ∧
    r = { existing with expiresAt := r.expiresAt, revision := r.revision }

theorem mem_handleHeartbeat {lifecycle : LifecycleConfig} {now : TimePoint} {agentId : Bytes} {revision : UInt64}
    (h : r ∈ (handleHeartbeat lifecycle now node agentId revision).1.registry.records) :
    r ∈ node.registry.records ∨ (r.agentId = agentId ∧ r.revision = revision ∧ Raised node r) := by
  simp only [handleHeartbeat, AgentRegistry.refreshHeartbeat, refreshRecords_eq] at h
  cases hf : findRecord agentId node.registry.records with
  | none =>
      simp only [hf] at h
      exact Or.inl h
  | some existing =>
      by_cases hr : existing.revision ≤ revision
      · simp only [hf, hr, if_true] at h
        rcases mem_modifyFirst h with ⟨x, hx, rfl⟩ | h
        · obtain rfl : x = existing := Option.some.inj (hx.symm.trans hf)
          have hid : x.agentId = agentId := findRecord_agentId hf
          exact Or.inr ⟨hid, rfl, x, lookup_mem hx, hr, rfl⟩
        · exact Or.inl h
      · simp only [hf, hr, if_false] at h
        exact Or.inl h

theorem handleHeartbeat_accepted (lifecycle : LifecycleConfig) (now : TimePoint) (node : Node) (agentId : Bytes)
    (revision : UInt64) :
    (handleHeartbeat lifecycle now node agentId revision).2 = true ↔
      ∃ existing, findRecord agentId node.registry.records = some existing ∧ existing.revision ≤ revision := by
  simp only [handleHeartbeat, AgentRegistry.refreshHeartbeat, refreshRecords_eq]
  cases hf : findRecord agentId node.registry.records with
  | none => simp
  | some existing =>
      by_cases hr : existing.revision ≤ revision
      · simp [hr]
      · simp [hr]

theorem findRecord_handleHeartbeat (lifecycle : LifecycleConfig) (now : TimePoint) (node : Node) (agentId : Bytes)
    (revision : UInt64) (a : Bytes) :
    findRecord a (handleHeartbeat lifecycle now node agentId revision).1.registry.records =
      if (handleHeartbeat lifecycle now node agentId revision).2 = true ∧ a = agentId then
        (findRecord agentId node.registry.records).map (fun r =>
          { r with expiresAt := now + milliseconds lifecycle.heartbeatTtl, revision := revision })
      else findRecord a node.registry.records := by
  simp only [handleHeartbeat, AgentRegistry.refreshHeartbeat, refreshRecords_eq]
  cases hf : findRecord agentId node.registry.records with
  | none => simp
  | some existing =>
      by_cases hr : existing.revision ≤ revision
      · simp only [hr, if_true, findRecord_refresh, hf, true_and]
      · simp [hr]

theorem perform_grows (sodium : Option Verifier) (protocol : ControlProtocol) (now : TimePoint) (node : Node)
    (operation : Operation) :
    Grows node.registry.records (perform sodium protocol now node operation).registry.records := by
  cases operation with
  | submit record =>
      simp only [perform, submitEffect]
      split
      next ha => exact storeRecord_grows (Bool.and_eq_true_iff.mp ha).2
      next => exact Grows.refl _
  | refresh agentId revision => exact refreshHeartbeat_grows _ _ _ _
  | query => exact Grows.refl _

def OneRecordPerAgent (records : List AgentRecord) : Prop := (records.map AgentRecord.agentId).Nodup

theorem OneRecordPerAgent.findRecord_of_mem {records : List AgentRecord} (h : OneRecordPerAgent records)
    (hr : r ∈ records) : findRecord r.agentId records = some r :=
  lookup_of_mem h hr

theorem findRecord_purgeExpired {registry : AgentRegistry} (h : OneRecordPerAgent registry.records) (now : TimePoint)
    (a : Bytes) :
    findRecord a (registry.purgeExpired now).1.records =
      (findRecord a registry.records).filter (fun r => now < r.expiresAt) :=
  lookup_filter h a _

theorem submitEffect_oneRecordPerAgent (sodium : Option Verifier) (trust : TrustConfig) (record : AgentRecord)
    (h : OneRecordPerAgent node.registry.records) :
    OneRecordPerAgent (submitEffect sodium trust node record).registry.records := by
  simp only [submitEffect]
  split
  · exact put_nodup h
  · exact h

theorem handleHeartbeat_agentIds (lifecycle : LifecycleConfig) (now : TimePoint) (node : Node) (agentId : Bytes)
    (revision : UInt64) :
    (handleHeartbeat lifecycle now node agentId revision).1.registry.records.map AgentRecord.agentId =
      node.registry.records.map AgentRecord.agentId :=
  refreshHeartbeat_agentIds node.registry agentId _ revision

theorem advance_oneRecordPerAgent (platform : Platform) (protocol : ControlProtocol) (event : Event)
    (h : OneRecordPerAgent node.registry.records) :
    OneRecordPerAgent (advance platform protocol node event).registry.records := by
  cases event with
  | line now text =>
      rw [advance_line]
      cases lineOperation protocol now text with
      | submit record => exact submitEffect_oneRecordPerAgent _ _ _ h
      | refresh agentId revision =>
          rw [OneRecordPerAgent, perform, handleHeartbeat_agentIds]
          exact h
      | query => exact h
  | purge now => exact h.sublist (List.filter_sublist.map _)

end BeaconNode.ControlRuns
