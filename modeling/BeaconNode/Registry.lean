import BeaconNode.KeyedList
import BeaconNode.Identity
import Mathlib.Data.List.Sort

namespace BeaconNode.Registry

open Words Records Crypto Identity KeyedList

/-- The records in insertion order, and the calls the registry has made to
its upsert callback, oldest first. -/
structure AgentRegistry where
  records : List AgentRecord := []
  onUpsert : List AgentRecord := []
  deriving DecidableEq

/-- std::sort by revision: some permutation in which revisions do not fall.
Nothing is promised about records of equal revision. -/
structure RevisionSort where
  sort : List AgentRecord → List AgentRecord
  perm : ∀ l, (sort l).Perm l
  sorted : ∀ l, (sort l).Pairwise (fun r s => r.revision ≤ s.revision)

def insertionRevisionSort : RevisionSort where
  sort l := l.insertionSort (fun r s => r.revision ≤ s.revision)
  perm l := List.perm_insertionSort _ l
  sorted l :=
    haveI : Std.Total (fun r s : AgentRecord => r.revision ≤ s.revision) := ⟨fun _ _ => le_total _ _⟩
    haveI : IsTrans AgentRecord (fun r s => r.revision ≤ s.revision) := ⟨fun _ _ _ => le_trans⟩
    List.pairwise_insertionSort _ l

def findRecord (agentId : Bytes) (records : List AgentRecord) : Option AgentRecord :=
  lookup AgentRecord.agentId agentId records

def storeRecord (record : AgentRecord) (records : List AgentRecord) : List AgentRecord :=
  put AgentRecord.agentId record records

def conflictingKeys (existing record : AgentRecord) : Bool :=
  existing.publicKeyHex ≠ [] && record.publicKeyHex ≠ [] && existing.publicKeyHex ≠ record.publicKeyHex

/-- The part of upsert that runs under the lock; none is a refusal. -/
def applyUpsert (records : List AgentRecord) (record : AgentRecord) : Option (List AgentRecord) :=
  match findRecord record.agentId records with
  | none => some (records ++ [record])
  | some existing =>
      if record.revision < existing.revision then none
      else if conflictingKeys existing record then none
      else some (modifyFirst AgentRecord.agentId record.agentId (fun _ => record) records)

def refreshRecords (records : List AgentRecord) (agentId : Bytes) (expiresAt : TimePoint)
    (revision : UInt64) : Option (List AgentRecord) :=
  match findRecord agentId records with
  | none => none
  | some existing =>
      if revision < existing.revision then none
      else some (modifyFirst AgentRecord.agentId agentId
        (fun r => { r with expiresAt := expiresAt, revision := revision }) records)

def loadRecord (farFuture : TimePoint) (records : List AgentRecord) (record : AgentRecord) : List AgentRecord :=
  match findRecord record.agentId records with
  | none => records ++ [{ record with expiresAt := farFuture }]
  | some existing =>
      -- the source stamps the old record before it overwrites it, so the new
      -- one keeps its own expiry
      if existing.revision < record.revision then
        modifyFirst AgentRecord.agentId record.agentId (fun _ => record) records
      else records

def highestRevision (records : List AgentRecord) : UInt64 :=
  records.foldl (fun highest r => max highest r.revision) 0

namespace AgentRegistry

def upsert (registry : AgentRegistry) (record : AgentRecord) : AgentRegistry × Bool :=
  match applyUpsert registry.records record with
  | none => (registry, false)
  | some records => (⟨records, registry.onUpsert ++ [record]⟩, true)

def refreshHeartbeat (registry : AgentRegistry) (agentId : Bytes) (expiresAt : TimePoint)
    (revision : UInt64) : AgentRegistry × Bool :=
  match refreshRecords registry.records agentId expiresAt revision with
  | none => (registry, false)
  | some records => ({ registry with records := records }, true)

def entriesAfterRevision (S : RevisionSort) (registry : AgentRegistry) (revision limit : UInt64) :
    List AgentRecord :=
  let selected := S.sort (registry.records.filter (fun r => revision < r.revision))
  if 0 < limit ∧ limit.toNat < selected.length then selected.take limit.toNat else selected

def find (registry : AgentRegistry) (agentId : Bytes) : Option AgentRecord :=
  findRecord agentId registry.records

def list (registry : AgentRegistry) : List AgentRecord := registry.records

def purgeExpired (registry : AgentRegistry) (now : TimePoint) : AgentRegistry × Nat :=
  let kept := registry.records.filter (fun r => now < r.expiresAt)
  ({ registry with records := kept }, registry.records.length - kept.length)

def loadFromPersistence (registry : AgentRegistry) (now : TimePoint) (records : List AgentRecord) :
    AgentRegistry :=
  { registry with records := records.foldl (loadRecord (now + hours (24 * 365))) registry.records }

def stats (registry : AgentRegistry) : RegistryStats :=
  ⟨registry.records.length, highestRevision registry.records⟩

end AgentRegistry

/-- A registry with the identity service its users hold a pointer to. -/
structure Node where
  registry : AgentRegistry := {}
  identity : Option IdentityService := none
  deriving DecidableEq

def Node.upsert (node : Node) (record : AgentRecord) : Node × Bool :=
  let (registry, accepted) := node.registry.upsert record
  ({ node with registry := registry }, accepted)

/-- One turn of the merge loop, and whether the record is counted. -/
def mergeRecord (sodium : Option Verifier) (node : Node) (record : AgentRecord) : Node × Bool :=
  match node.identity with
  | none => node.upsert record
  | some identity =>
      let (identity, status) := identity.verifyAndRegister sodium record
      let node := { node with identity := some identity }
      if status ≠ .valid ∧ status ≠ .missing then (node, false) else node.upsert record

def merge (sodium : Option Verifier) (node : Node) (records : List AgentRecord) : Node × Nat :=
  records.foldl (fun (state : Node × Nat) record =>
    let (node, accepted) := mergeRecord sodium state.1 record
    (node, if accepted then state.2 + 1 else state.2)) (node, 0)

def admits (records : List AgentRecord) (record : AgentRecord) : Bool :=
  match findRecord record.agentId records with
  | none => true
  | some existing => existing.revision ≤ record.revision && !conflictingKeys existing record

theorem admits_iff {records : List AgentRecord} {record : AgentRecord} :
    admits records record = true ↔ ∀ existing, findRecord record.agentId records = some existing →
      existing.revision ≤ record.revision ∧ conflictingKeys existing record = false := by
  simp only [admits]
  cases hf : findRecord record.agentId records with
  | none => simp
  | some existing => simp

theorem storeRecord_fresh {records : List AgentRecord} {record : AgentRecord}
    (h : findRecord record.agentId records = none) : storeRecord record records = records ++ [record] := by
  rw [findRecord] at h
  simp [storeRecord, put, h]

theorem storeRecord_held {records : List AgentRecord} {record existing : AgentRecord}
    (h : findRecord record.agentId records = some existing) :
    storeRecord record records =
      modifyFirst AgentRecord.agentId record.agentId (fun _ => record) records := by
  rw [findRecord] at h
  simp [storeRecord, put, h]

theorem applyUpsert_eq (records : List AgentRecord) (record : AgentRecord) :
    applyUpsert records record = if admits records record then some (storeRecord record records) else none := by
  cases hf : findRecord record.agentId records with
  | none => simp [applyUpsert, admits, hf, storeRecord_fresh hf]
  | some existing =>
      by_cases hr : record.revision < existing.revision
      · simp [applyUpsert, admits, hf, hr]
      · cases hc : conflictingKeys existing record with
        | true => simp [applyUpsert, admits, hf, hc]
        | false => simp [applyUpsert, admits, hf, hr, hc, not_lt.mp hr, storeRecord_held hf]

variable {registry : AgentRegistry} {records : List AgentRecord} {record : AgentRecord}

theorem upsert_eq (registry : AgentRegistry) (record : AgentRecord) :
    registry.upsert record = if admits registry.records record then
      (⟨storeRecord record registry.records, registry.onUpsert ++ [record]⟩, true) else (registry, false) := by
  simp only [AgentRegistry.upsert, applyUpsert_eq]
  split <;> simp_all

theorem upsert_accepted (registry : AgentRegistry) (record : AgentRecord) :
    (registry.upsert record).2 = admits registry.records record := by
  rw [upsert_eq]
  cases admits registry.records record with
  | true => rfl
  | false => rfl

theorem findRecord_agentId {agentId : Bytes} (h : findRecord agentId records = some record) :
    record.agentId = agentId :=
  lookup_key h

theorem findRecord_storeRecord (record : AgentRecord) (agentId : Bytes) (records : List AgentRecord) :
    findRecord agentId (storeRecord record records) =
      if agentId = record.agentId then some record else findRecord agentId records :=
  lookup_put record agentId records

theorem loadRecord_fresh {farFuture : TimePoint} {record : AgentRecord}
    (h : findRecord record.agentId records = none) :
    loadRecord farFuture records record = storeRecord (record.restamp farFuture) records := by
  have hfresh : findRecord (record.restamp farFuture).agentId records = none := h
  rw [storeRecord_fresh hfresh, loadRecord, h]
  rfl

theorem loadRecord_held {farFuture : TimePoint} {record existing : AgentRecord}
    (h : findRecord record.agentId records = some existing) :
    loadRecord farFuture records record =
      if existing.revision < record.revision then storeRecord record records else records := by
  simp only [loadRecord, h, storeRecord_held h]

theorem refreshRecords_eq (records : List AgentRecord) (agentId : Bytes) (expiresAt : TimePoint)
    (revision : UInt64) :
    refreshRecords records agentId expiresAt revision =
      match findRecord agentId records with
      | none => none
      | some existing => if existing.revision ≤ revision then
          some (modifyFirst AgentRecord.agentId agentId
            (fun r => { r with expiresAt := expiresAt, revision := revision }) records) else none := by
  simp only [refreshRecords]
  cases findRecord agentId records with
  | none => rfl
  | some existing =>
      by_cases h : existing.revision ≤ revision
      · simp [h, not_lt.mpr h]
      · simp [h, not_le.mp h]

theorem findRecord_refresh (agentId a : Bytes) (expiresAt : TimePoint) (revision : UInt64)
    (records : List AgentRecord) :
    findRecord a (modifyFirst AgentRecord.agentId agentId
      (fun r => { r with expiresAt := expiresAt, revision := revision }) records) =
      if a = agentId then
        (findRecord agentId records).map (fun r => { r with expiresAt := expiresAt, revision := revision })
      else findRecord a records := by
  unfold findRecord
  apply lookup_modifyFirst
  intro r h
  exact h

theorem refreshHeartbeat_agentIds (registry : AgentRegistry) (agentId : Bytes) (expiresAt : TimePoint)
    (revision : UInt64) :
    (registry.refreshHeartbeat agentId expiresAt revision).1.records.map AgentRecord.agentId =
      registry.records.map AgentRecord.agentId := by
  simp only [AgentRegistry.refreshHeartbeat, refreshRecords]
  cases findRecord agentId registry.records with
  | none => rfl
  | some existing =>
      by_cases hr : revision < existing.revision
      · simp [hr]
      · simp only [hr, if_false]
        apply modifyFirst_keys
        intro x hx
        exact hx

def SameRevisions (records others : List AgentRecord) : Prop :=
  ∀ agentId, (findRecord agentId records).map AgentRecord.revision =
    (findRecord agentId others).map AgentRecord.revision

/-- No agent is lost and no agent's revision falls. -/
def Grows (before after : List AgentRecord) : Prop :=
  ∀ a r, findRecord a before = some r → ∃ r', findRecord a after = some r' ∧ r.revision ≤ r'.revision

theorem Grows.refl (records : List AgentRecord) : Grows records records :=
  fun _ r h => ⟨r, h, le_rfl⟩

theorem Grows.trans {a b c : List AgentRecord} (h : Grows a b) (k : Grows b c) : Grows a c := by
  intro x r hr
  obtain ⟨s, hs, hrs⟩ := h x r hr
  obtain ⟨t, ht, hst⟩ := k x s hs
  exact ⟨t, ht, hrs.trans hst⟩

theorem storeRecord_grows_of_le
    (h : ∀ existing, findRecord record.agentId records = some existing → existing.revision ≤ record.revision) :
    Grows records (storeRecord record records) := by
  intro a r hr
  rw [findRecord_storeRecord]
  by_cases ha : a = record.agentId
  · subst ha
    exact ⟨record, if_pos rfl, h r hr⟩
  · exact ⟨r, by rw [if_neg ha, hr], le_rfl⟩

theorem storeRecord_grows (h : admits records record = true) : Grows records (storeRecord record records) :=
  storeRecord_grows_of_le fun existing hf => (admits_iff.mp h existing hf).1

theorem upsert_grows (registry : AgentRegistry) (record : AgentRecord) :
    Grows registry.records (registry.upsert record).1.records := by
  rw [upsert_eq]
  split
  next h => exact storeRecord_grows h
  next h => exact Grows.refl _

theorem refreshHeartbeat_grows (registry : AgentRegistry) (agentId : Bytes) (expiresAt : TimePoint)
    (revision : UInt64) : Grows registry.records (registry.refreshHeartbeat agentId expiresAt revision).1.records := by
  simp only [AgentRegistry.refreshHeartbeat, refreshRecords_eq]
  cases hf : findRecord agentId registry.records with
  | none => exact Grows.refl _
  | some existing =>
      by_cases hr : existing.revision ≤ revision
      · simp only [hr, if_true]
        intro a r ha
        rw [findRecord_refresh]
        by_cases he : a = agentId
        · subst he
          rw [hf, Option.some.injEq] at ha
          subst ha
          exact ⟨_, by rw [if_pos rfl, hf]; rfl, hr⟩
        · exact ⟨r, by rw [if_neg he, ha], le_rfl⟩
      · simp only [hr, if_false]
        exact Grows.refl _

theorem mergeRecord_grows (sodium : Option Verifier) (node : Node) (record : AgentRecord) :
    Grows node.registry.records (mergeRecord sodium node record).1.registry.records := by
  simp only [mergeRecord]
  split
  · exact upsert_grows node.registry record
  · split
    · exact Grows.refl _
    · exact upsert_grows node.registry record

theorem mergeRecord_accepted (sodium : Option Verifier) (node : Node) (record : AgentRecord) :
    (mergeRecord sodium node record).2 = true ↔
      (∀ identity, node.identity = some identity →
        (identity.verifyAndRegister sodium record).2 = .valid ∨
          (identity.verifyAndRegister sodium record).2 = .missing) ∧
        admits node.registry.records record = true := by
  have hup (other : Node) (ho : other.registry = node.registry) :
      (other.upsert record).2 = admits node.registry.records record := by
    rw [Node.upsert, ho]
    exact upsert_accepted node.registry record
  simp only [mergeRecord]
  cases hi : node.identity with
  | none => simp [hup node rfl]
  | some identity =>
      simp only [Option.some.injEq, forall_eq']
      cases (identity.verifyAndRegister sodium record).2 with
      | valid | missing => simp [hup]
      | invalid | unsupported => simp

theorem mergeRecord_identity (sodium : Option Verifier) (node : Node) (record : AgentRecord) :
    (mergeRecord sodium node record).1.identity =
      node.identity.map (fun identity => (identity.verifyAndRegister sodium record).1) := by
  simp only [mergeRecord]
  cases hi : node.identity with
  | none => simp [Node.upsert, hi]
  | some identity =>
      dsimp only
      split
      · rfl
      · rfl

theorem findRecord_mergeRecord (sodium : Option Verifier) (node : Node) (record : AgentRecord) (a : Bytes) :
    findRecord a (mergeRecord sodium node record).1.registry.records =
      if (mergeRecord sodium node record).2 = true ∧ a = record.agentId then some record
      else findRecord a node.registry.records := by
  have hup (other : Node) : findRecord a (other.upsert record).1.registry.records =
      if (other.upsert record).2 = true ∧ a = record.agentId then some record
      else findRecord a other.registry.records := by
    simp only [Node.upsert, upsert_eq]
    cases admits other.registry.records record with
    | true => simp [findRecord_storeRecord]
    | false => simp
  obtain ⟨registry, identity⟩ := node
  cases identity with
  | none => exact hup ⟨registry, none⟩
  | some identity =>
      simp only [mergeRecord]
      split
      · simp
      · exact hup ⟨registry, some (identity.verifyAndRegister sodium record).1⟩

/-- What a merge loop can see and change of one agent. -/
def agentView (a : Bytes) (node : Node) : Option AgentRecord × Option (Option Bytes) :=
  (findRecord a node.registry.records, node.identity.map (fun identity => identity.pinnedKey a))

theorem agentView_mergeRecord_other (sodium : Option Verifier) (node : Node) (record : AgentRecord) (a : Bytes)
    (h : a ≠ record.agentId) : agentView a (mergeRecord sodium node record).1 = agentView a node := by
  simp only [agentView, findRecord_mergeRecord, h, and_false, if_false, mergeRecord_identity, Option.map_map]
  congr 2
  funext identity
  simp [pinnedKey_verifyAndRegister, h]

theorem mergeRecord_accepted_congr {sodium : Option Verifier} {node other : Node}
    (h : agentView record.agentId node = agentView record.agentId other) :
    (mergeRecord sodium node record).2 = (mergeRecord sodium other record).2 := by
  obtain ⟨hf, hi⟩ := Prod.mk.inj h
  rw [Bool.eq_iff_iff, mergeRecord_accepted, mergeRecord_accepted]
  apply and_congr
  · cases hn : node.identity with
    | none =>
        rw [hn, Option.map_none, eq_comm, Option.map_eq_none_iff] at hi
        rw [hi]
    | some identity =>
        rw [hn, Option.map_some, eq_comm, Option.map_eq_some_iff] at hi
        obtain ⟨service, ho, hp⟩ := hi
        simp only [ho, Option.some.injEq, forall_eq']
        rw [verifyAndRegister_status_congr hp]
  · rw [admits, admits, hf]

theorem merge_node (sodium : Option Verifier) (node : Node) (records : List AgentRecord) :
    (merge sodium node records).1 = records.foldl (fun node r => (mergeRecord sodium node r).1) node := by
  have hfold : ∀ (n : Nat) (node : Node), (records.foldl (fun (state : Node × Nat) record =>
      ((mergeRecord sodium state.1 record).1,
        if (mergeRecord sodium state.1 record).2 then state.2 + 1 else state.2)) (node, n)).1 =
      records.foldl (fun node r => (mergeRecord sodium node r).1) node := by
    induction records with
    | nil => intro n node; rfl
    | cons r rs ih => intro n node; rw [List.foldl_cons, List.foldl_cons, ih]
  exact hfold 0 node

theorem agentView_mergeRecord_own (sodium : Option Verifier) (node other : Node) (record : AgentRecord)
    (h : agentView record.agentId node = agentView record.agentId other) :
    agentView record.agentId (mergeRecord sodium node record).1 =
      agentView record.agentId (mergeRecord sodium other record).1 := by
  have hpinned (node : Node) :
      (mergeRecord sodium node record).1.identity.map (fun identity => identity.pinnedKey record.agentId) =
        (node.identity.map (fun identity => identity.pinnedKey record.agentId)).map (fun pinned =>
          if verifyAgentSignature sodium record = .valid ∧ pinned = none then
            some (decodeHex record.publicKeyHex) else pinned) := by
    rw [mergeRecord_identity]
    cases node.identity with
    | none => rfl
    | some identity => simp [pinnedKey_verifyAndRegister]
  obtain ⟨hf, hi⟩ := Prod.mk.inj h
  apply Prod.ext
  · simp only [agentView]
    rw [findRecord_mergeRecord, findRecord_mergeRecord, mergeRecord_accepted_congr h, hf]
  · simp only [agentView]
    rw [hpinned, hpinned, hi]

theorem findRecord_merge (sodium : Option Verifier) (node : Node) (h : (records.map AgentRecord.agentId).Nodup)
    (a : Bytes) :
    findRecord a (merge sodium node records).1.registry.records =
      match findRecord a records with
      | none => findRecord a node.registry.records
      | some r => if (mergeRecord sodium node r).2 = true then some r else findRecord a node.registry.records := by
  have hview := congrArg Prod.fst
    (view_foldl (fun node r => (mergeRecord sodium node r).1) agentView (agentView_mergeRecord_other sodium)
      (agentView_mergeRecord_own sodium) h a node)
  rw [← merge_node, ← findRecord] at hview
  cases hl : findRecord a records with
  | none =>
      rw [hl] at hview
      exact hview
  | some r =>
      rw [hl] at hview
      refine hview.trans ((findRecord_mergeRecord sodium node r a).trans ?_)
      simp only [findRecord_agentId hl, and_true]

theorem mem_upsert {r : AgentRecord} (h : r ∈ (registry.upsert record).1.records) :
    r ∈ registry.records ∨ r = record := by
  rw [upsert_eq] at h
  split at h
  next => exact (mem_put h).symm
  next => exact Or.inl h

theorem mem_mergeRecord {sodium : Option Verifier} {node : Node} {r : AgentRecord}
    (h : r ∈ (mergeRecord sodium node record).1.registry.records) : r ∈ node.registry.records ∨ r = record := by
  simp only [mergeRecord] at h
  split at h
  · exact mem_upsert h
  · split at h
    · exact Or.inl h
    · exact mem_upsert h

theorem mem_merge {sodium : Option Verifier} {node : Node} {r : AgentRecord}
    (h : r ∈ (merge sodium node records).1.registry.records) : r ∈ node.registry.records ∨ r ∈ records := by
  rw [merge_node] at h
  induction records generalizing node with
  | nil => exact Or.inl h
  | cons x xs ih =>
      rcases ih h with h | h
      · rcases mem_mergeRecord h with h | rfl
        · exact Or.inl h
        · exact Or.inr (by simp)
      · exact Or.inr (List.mem_cons_of_mem _ h)

theorem merge_grows (sodium : Option Verifier) (node : Node) (records : List AgentRecord) :
    Grows node.registry.records (merge sodium node records).1.registry.records := by
  rw [merge_node]
  induction records generalizing node with
  | nil => exact Grows.refl _
  | cons x xs ih => exact (mergeRecord_grows sodium node x).trans (ih _)

theorem mergeRecord_keyless (sodium : Option Verifier) (node : Node) (h : record.publicKeyHex = []) :
    mergeRecord sodium node record = node.upsert record := by
  have hm : verifyAgentSignature sodium record = .missing := verifyAgentSignature_missing.mpr (Or.inl h)
  obtain ⟨registry, identity⟩ := node
  cases identity with
  | none => rfl
  | some identity =>
      have hv : identity.verifyAndRegister sodium record = (identity, .missing) := by
        rw [verifyAndRegister_of_not_valid (by simp [hm]), hm]
      simp [mergeRecord, hv]

theorem le_highestRevision (h : record ∈ records) : record.revision ≤ highestRevision records := by
  have hfold : ∀ (l : List AgentRecord) (m : UInt64), m ≤ l.foldl (fun n r => max n r.revision) m ∧
      ∀ r ∈ l, r.revision ≤ l.foldl (fun n r => max n r.revision) m := by
    intro l
    induction l with
    | nil => intro m; simp
    | cons x xs ih =>
        intro m
        obtain ⟨hm, hxs⟩ := ih (max m x.revision)
        refine ⟨(le_max_left _ _).trans hm, fun r hr => ?_⟩
        rcases List.mem_cons.mp hr with rfl | hr
        · exact (le_max_right _ _).trans hm
        · exact hxs r hr
  exact (hfold records 0).2 record h

theorem highestRevision_mem (records : List AgentRecord) :
    highestRevision records = 0 ∨ ∃ r ∈ records, r.revision = highestRevision records := by
  have hfold : ∀ (l : List AgentRecord) (m : UInt64), l.foldl (fun n r => max n r.revision) m = m ∨
      ∃ r ∈ l, r.revision = l.foldl (fun n r => max n r.revision) m := by
    intro l
    induction l with
    | nil => intro m; simp
    | cons x xs ih =>
        intro m
        rcases ih (max m x.revision) with h | ⟨r, hr, he⟩
        · rcases le_total m x.revision with hle | hle
          · exact Or.inr ⟨x, by simp, by rw [List.foldl_cons, h, max_eq_right hle]⟩
          · exact Or.inl (by rw [List.foldl_cons, h, max_eq_left hle])
        · exact Or.inr ⟨r, by simp [hr], he⟩
  exact hfold records 0

def Covers (records : List AgentRecord) (record : AgentRecord) : Prop :=
  ∃ r, findRecord record.agentId records = some r ∧ record.revision ≤ r.revision

theorem Covers.grows {after : List AgentRecord} (h : Covers records record) (hg : Grows records after) :
    Covers after record := by
  obtain ⟨r, hr, hle⟩ := h
  obtain ⟨s, hs, hrs⟩ := hg _ r hr
  exact ⟨s, hs, hle.trans hrs⟩

/-- A record without a key can only be refused for a newer one. -/
theorem upsert_covers (registry : AgentRegistry) (h : record.publicKeyHex = []) :
    Covers (registry.upsert record).1.records record := by
  rw [upsert_eq]
  split
  next ha => exact ⟨record, by rw [findRecord_storeRecord, if_pos rfl], le_rfl⟩
  next ha =>
    cases hf : findRecord record.agentId registry.records with
    | none => simp [admits, hf] at ha
    | some existing =>
        have hc : conflictingKeys existing record = false := by simp [conflictingKeys, h]
        have hlt : record.revision < existing.revision := by simpa [admits, hf, hc] using ha
        exact ⟨existing, hf, hlt.le⟩

def upsertAll (registry : AgentRegistry) (records : List AgentRecord) : AgentRegistry :=
  records.foldl (fun registry r => (registry.upsert r).1) registry

theorem upsertAll_grows (registry : AgentRegistry) (records : List AgentRecord) :
    Grows registry.records (upsertAll registry records).records := by
  induction records generalizing registry with
  | nil => exact Grows.refl _
  | cons r rs ih => exact (upsert_grows registry r).trans (ih _)

theorem upsertAll_covers (registry : AgentRegistry) (hk : ∀ r ∈ records, r.publicKeyHex = [])
    (hr : record ∈ records) : Covers (upsertAll registry records).records record := by
  induction records generalizing registry with
  | nil => simp at hr
  | cons r rs ih =>
      rcases List.mem_cons.mp hr with rfl | hr
      · exact (upsert_covers registry (hk record (by simp))).grows (upsertAll_grows _ rs)
      · exact ih _ (fun s hs => hk s (by simp [hs])) hr

theorem merge_keyless (sodium : Option Verifier) (node : Node) (hk : ∀ r ∈ records, r.publicKeyHex = []) :
    (merge sodium node records).1.registry = upsertAll node.registry records := by
  rw [merge_node]
  induction records generalizing node with
  | nil => rfl
  | cons r rs ih =>
      rw [List.foldl_cons, ih _ (fun s hs => hk s (by simp [hs])), mergeRecord_keyless _ _ (hk r (by simp))]
      rfl

theorem Covers.le_highestRevision (h : Covers records record) : record.revision ≤ highestRevision records := by
  obtain ⟨r, hr, hle⟩ := h
  exact hle.trans (Registry.le_highestRevision (lookup_mem hr))

theorem mem_entriesAfterRevision {S : RevisionSort} {revision limit : UInt64}
    (h : record ∈ registry.entriesAfterRevision S revision limit) :
    record ∈ registry.records ∧ revision < record.revision := by
  have hs : record ∈ S.sort (registry.records.filter (fun r => revision < r.revision)) := by
    simp only [AgentRegistry.entriesAfterRevision] at h
    split at h
    · exact List.mem_of_mem_take h
    · exact h
  simpa using (S.perm _).mem_iff.mp hs

theorem entriesAfterRevision_nodup {S : RevisionSort} {revision limit : UInt64}
    (h : (registry.records.map AgentRecord.agentId).Nodup) :
    ((registry.entriesAfterRevision S revision limit).map AgentRecord.agentId).Nodup := by
  have hkept : ((registry.records.filter (fun r => revision < r.revision)).map AgentRecord.agentId).Nodup :=
    h.sublist (List.filter_sublist.map _)
  have hsorted := ((S.perm (registry.records.filter (fun r => revision < r.revision))).map
    AgentRecord.agentId).nodup_iff.mpr hkept
  simp only [AgentRegistry.entriesAfterRevision]
  split
  · exact hsorted.sublist ((List.take_sublist _ _).map _)
  · exact hsorted

theorem entriesAfterRevision_eq_nil {S : RevisionSort} {revision limit : UInt64} :
    registry.entriesAfterRevision S revision limit = [] ↔ highestRevision registry.records ≤ revision := by
  constructor
  · intro h
    by_contra hlt
    rcases highestRevision_mem registry.records with hz | ⟨r, hr, he⟩
    · exact hlt (hz ▸ uint64_zero_le revision)
    · have hs : r ∈ S.sort (registry.records.filter (fun r => revision < r.revision)) := by
        rw [(S.perm _).mem_iff]
        simpa [hr, he] using hlt
      simp only [AgentRegistry.entriesAfterRevision] at h
      split at h
      next hb =>
        have hpos : 0 < limit.toNat := hb.1
        rw [List.take_eq_nil_iff] at h
        rcases h with h | h
        · omega
        · simp [h] at hs
      next hb => simp [h] at hs
  · intro h
    rw [List.eq_nil_iff_forall_not_mem]
    intro r hr
    obtain ⟨hm, hlt⟩ := mem_entriesAfterRevision hr
    exact absurd ((Registry.le_highestRevision hm).trans h) (not_le.mpr hlt)

theorem exists_mem_entriesAfterRevision (S : RevisionSort) (limit : UInt64) {revision : UInt64}
    (h : revision < highestRevision registry.records) :
    ∃ r, r ∈ registry.entriesAfterRevision S revision limit := by
  apply List.exists_mem_of_ne_nil
  rw [ne_eq, entriesAfterRevision_eq_nil]
  exact not_le.mpr h

end BeaconNode.Registry
