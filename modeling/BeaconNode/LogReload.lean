import BeaconNode.RegistryLog
import BeaconNode.RegistryShape

namespace BeaconNode.LogReload

open Words TextStream Records Registry ControlRuns RegistryLog RegistryShape KeyedList VersionedLog

def acceptedUpserts (registry : AgentRegistry) : List AgentRecord → List AgentRecord
  | [] => []
  | record :: calls =>
      let (next, accepted) := registry.upsert record
      if accepted then record :: acceptedUpserts next calls else acceptedUpserts next calls

/-- What load_from_persistence holds of an agent once another record of the
agent has gone by. -/
def loadHeld (farFuture : TimePoint) (held : Option AgentRecord) (record : AgentRecord) : Option AgentRecord :=
  match held with
  | none => some (record.restamp farFuture)
  | some existing => higher AgentRecord.revision (some existing) record

def stampFirst (farFuture : TimePoint) : List AgentRecord → List AgentRecord
  | [] => []
  | r :: rs => r.restamp farFuture :: rs

variable {now farFuture : TimePoint} {agentId : Bytes} {records log : List AgentRecord} {registry : AgentRegistry}

theorem findRecord_loadRecord (farFuture : TimePoint) (a : Bytes) (records : List AgentRecord)
    (record : AgentRecord) :
    findRecord a (loadRecord farFuture records record) =
      if record.agentId = a then loadHeld farFuture (findRecord a records) record else findRecord a records := by
  by_cases ha : record.agentId = a
  · subst ha
    rw [if_pos rfl]
    cases hf : findRecord record.agentId records with
    | none => rw [loadRecord_fresh hf, findRecord_storeRecord, restamp_agentId, if_pos rfl, loadHeld]
    | some existing =>
        rw [loadRecord_held hf, loadHeld, higher]
        split
        · rw [findRecord_storeRecord, if_pos rfl]
        · exact hf
  · rw [if_neg ha]
    cases hf : findRecord record.agentId records with
    | none => rw [loadRecord_fresh hf, findRecord_storeRecord, restamp_agentId, if_neg (Ne.symm ha)]
    | some existing =>
        rw [loadRecord_held hf]
        split
        · rw [findRecord_storeRecord, if_neg (Ne.symm ha)]
        · rfl

theorem findRecord_foldl_loadRecord (farFuture : TimePoint) (a : Bytes) (log records : List AgentRecord) :
    findRecord a (log.foldl (loadRecord farFuture) records) =
      (log.filter (fun r => r.agentId = a)).foldl (loadHeld farFuture) (findRecord a records) := by
  induction log generalizing records with
  | nil => rfl
  | cons r rs ih =>
      rw [List.foldl_cons, ih, findRecord_loadRecord]
      by_cases ha : r.agentId = a
      · simp [ha]
      · simp [ha]

theorem foldl_loadHeld (farFuture : TimePoint) (l : List AgentRecord) :
    l.foldl (loadHeld farFuture) none = firstOfMaximum AgentRecord.revision (stampFirst farFuture l) := by
  have hheld (rs : List AgentRecord) (r : AgentRecord) :
      rs.foldl (loadHeld farFuture) (some r) = rs.foldl (higher AgentRecord.revision) (some r) := by
    induction rs generalizing r with
    | nil => rfl
    | cons s rs ih =>
        simp only [List.foldl_cons, loadHeld, higher]
        split
        · exact ih s
        · exact ih r
  cases l with
  | nil => rfl
  | cons r rs => exact hheld rs (r.restamp farFuture)

/-- The replay keeps the first of an agent's records that has the highest
revision, and only an agent's first record gets the new expiry. -/
theorem find_loadFromPersistence (now : TimePoint) (a : Bytes) (log : List AgentRecord) :
    (({} : AgentRegistry).loadFromPersistence now log).find a =
      firstOfMaximum AgentRecord.revision
        (stampFirst (now + hours (24 * 365)) (log.filter (fun r => r.agentId = a))) := by
  rw [← foldl_loadHeld]
  exact findRecord_foldl_loadRecord _ a log []

def FirstIsHighest (records : List AgentRecord) : Prop :=
  ∀ r ∈ records, ∀ first, findRecord r.agentId records = some first → r.revision ≤ first.revision

theorem filter_of_findRecord {first : AgentRecord} (h : findRecord agentId records = some first) :
    ∃ rest, records.filter (fun r => r.agentId = agentId) = first :: rest := by
  have hhead : (records.filter (fun r => r.agentId = agentId)).head? = some first := by
    rw [List.head?_filter]
    exact h
  obtain ⟨rest, hrest⟩ := List.head?_eq_some_iff.mp hhead
  exact ⟨rest, hrest⟩

theorem mem_loadFromPersistence {r : AgentRecord} :
    r ∈ (({} : AgentRegistry).loadFromPersistence now records).records ↔
      (({} : AgentRegistry).loadFromPersistence now records).find r.agentId = some r := by
  have hunique : OneRecordPerAgent (({} : AgentRegistry).loadFromPersistence now records).records :=
    (foldl_loadRecord _ records (by simp [OneRecordPerAgent])).1
  constructor
  · intro hr
    exact lookup_of_mem hunique hr
  · intro hr
    exact lookup_mem hr

theorem purgeExpired_keeps (h : ∀ r ∈ registry.records, now < r.expiresAt) :
    registry.purgeExpired now = (registry, 0) := by
  have hall : registry.records.filter (fun r => now < r.expiresAt) = registry.records := by
    rw [List.filter_eq_self]
    intro r hr
    simpa using h r hr
  simp [AgentRegistry.purgeExpired, hall]

/-- A restored agent has the first record of it with the new expiry, or a
higher one as it was read. -/
theorem restored_cases {x : AgentRecord} (hx : x ∈ (({} : AgentRegistry).loadFromPersistence now records).records) :
    ∃ first, findRecord x.agentId records = some first ∧
      (x = first.restamp (now + hours (24 * 365)) ∨ first.revision < x.revision ∧ x ∈ records) := by
  have hfind := mem_loadFromPersistence.mp hx
  rw [find_loadFromPersistence] at hfind
  cases hheld : findRecord x.agentId records with
  | none =>
      have hnone : records.filter (fun s => s.agentId = x.agentId) = [] := by
        rw [List.filter_eq_nil_iff]
        intro s hs
        simpa using lookup_eq_none.mp hheld s hs
      rw [hnone] at hfind
      cases hfind
  | some first =>
      obtain ⟨rest, hrest⟩ := filter_of_findRecord hheld
      have hfirst := isFirstOfMaximum hfind
      rw [hrest] at hfirst
      refine ⟨first, rfl, ?_⟩
      by_cases hle : x.revision ≤ first.revision
      · exact Or.inl (hfirst.eq_head hle)
      · have hmem : x ∈ rest := by
          refine (List.mem_cons.mp hfirst.mem).resolve_left ?_
          rintro rfl
          exact hle le_rfl
        have hfilter : x ∈ records.filter (fun s => s.agentId = x.agentId) := hrest ▸ List.mem_cons_of_mem _ hmem
        exact Or.inr ⟨lt_of_not_ge hle, List.mem_of_mem_filter hfilter⟩

theorem stamped_of_firstIsHighest (h : FirstIsHighest records) {r : AgentRecord}
    (hr : r ∈ (({} : AgentRegistry).loadFromPersistence now records).records) :
    r.expiresAt = now + hours (24 * 365) := by
  obtain ⟨first, hheld, hr | ⟨hlt, hmem⟩⟩ := restored_cases hr
  · rw [hr]
    rfl
  · exact absurd (h r hmem first hheld) (not_le.mpr hlt)

theorem firstIsHighest_of_stamped (hold : ∀ r ∈ records, r.expiresAt ≤ now)
    (h : ∀ r ∈ (({} : AgentRegistry).loadFromPersistence now records).records,
      r.expiresAt = now + hours (24 * 365)) : FirstIsHighest records := by
  intro r hr first hheld
  obtain ⟨rest, hrest⟩ := filter_of_findRecord hheld
  have hmem : r ∈ first :: rest := by
    rw [← hrest]
    simp [hr]
  obtain rfl | hmem := List.mem_cons.mp hmem
  · exact le_rfl
  · obtain ⟨x, hx⟩ := firstOfMaximum_cons AgentRecord.revision
      (first.restamp (now + hours (24 * 365))) rest
    have hrx : r.revision ≤ x.revision := (isFirstOfMaximum hx).le (List.mem_cons_of_mem _ hmem)
    have hstored : (({} : AgentRegistry).loadFromPersistence now records).find r.agentId = some x := by
      rw [find_loadFromPersistence, hrest]
      exact hx
    obtain ⟨first', hheld', hcase⟩ := restored_cases (lookup_mem hstored)
    rw [lookup_key hstored, hheld] at hheld'
    obtain rfl := Option.some.inj hheld'
    obtain hrestamped | ⟨-, hrecords⟩ := hcase
    · rw [hrestamped] at hrx
      exact hrx
    · -- a record that overtook the first one is as it was read, without the stamp
      have hle := hold x hrecords
      rw [h x (lookup_mem hstored)] at hle
      exact absurd hle (by simp [hours, minutes, milliseconds])

/-- The stamp is set on the record that is about to be overwritten, so a
restored agent has the grace period just when its first record is not
overtaken. -/
theorem loadFromPersistence_grace_iff (now : TimePoint) (records : List AgentRecord)
    (hold : ∀ r ∈ records, r.expiresAt ≤ now) :
    ((∀ r ∈ (({} : AgentRegistry).loadFromPersistence now records).records,
        r.expiresAt = now + hours (24 * 365)) ∧
      ∀ t < now + hours (24 * 365),
        (({} : AgentRegistry).loadFromPersistence now records).purgeExpired t =
          (({} : AgentRegistry).loadFromPersistence now records, 0)) ↔ FirstIsHighest records := by
  constructor
  · rintro ⟨hstamp, -⟩
    exact firstIsHighest_of_stamped hold hstamp
  · intro h
    refine ⟨fun r hr => stamped_of_firstIsHighest h hr, fun t ht => ?_⟩
    apply purgeExpired_keeps
    intro r hr
    rw [stamped_of_firstIsHighest h hr]
    exact ht

def restoredRecord (agentId : String) (revision : UInt64) : AgentRecord :=
  { agentId := ascii agentId, endpoint := ascii "tcp://a", revision := revision, expiresAt := 0 }

def fallingRecords : List AgentRecord :=
  [restoredRecord "a" 2, restoredRecord "b" 3, restoredRecord "a" 1, restoredRecord "b" 3]

theorem loadFromPersistence_grace_fallingRecords :
    (∀ r ∈ fallingRecords, r.expiresAt ≤ 0) ∧
      (∀ r ∈ (({} : AgentRegistry).loadFromPersistence 0 fallingRecords).records,
        r.expiresAt = 0 + hours (24 * 365)) ∧
      ∀ t < 0 + hours (24 * 365),
        (({} : AgentRegistry).loadFromPersistence 0 fallingRecords).purgeExpired t =
          (({} : AgentRegistry).loadFromPersistence 0 fallingRecords, 0) := by
  have hold : ∀ r ∈ fallingRecords, r.expiresAt ≤ 0 := by decide
  have hleads : ∀ r ∈ fallingRecords,
      (findRecord r.agentId fallingRecords).all (fun first => r.revision ≤ first.revision) = true := by decide
  have hfirst : FirstIsHighest fallingRecords := by
    intro r hr first hf
    have hlead := hleads r hr
    rw [hf, Option.all_some] at hlead
    exact of_decide_eq_true hlead
  exact ⟨hold, (loadFromPersistence_grace_iff 0 fallingRecords hold).mpr hfirst⟩

def risingRecords : List AgentRecord := [restoredRecord "a" 1, restoredRecord "a" 2]

/-- Two logged revisions of one agent: the restored record has expired, and
the first purge removes it. -/
theorem loadFromPersistence_no_grace :
    (∀ r ∈ risingRecords, r.expiresAt ≤ 0) ∧
      ¬ ((∀ r ∈ (({} : AgentRegistry).loadFromPersistence 0 risingRecords).records,
          r.expiresAt = 0 + hours (24 * 365)) ∧
        ∀ t < 0 + hours (24 * 365),
          (({} : AgentRegistry).loadFromPersistence 0 risingRecords).purgeExpired t =
            (({} : AgentRegistry).loadFromPersistence 0 risingRecords, 0)) := by
  refine ⟨by decide, fun h => ?_⟩
  exact absurd (congrArg Prod.snd (h.2 0 (by decide))) (by decide)

theorem upsertAll_onUpsert (registry : AgentRegistry) (calls : List AgentRecord) :
    (upsertAll registry calls).onUpsert = registry.onUpsert ++ acceptedUpserts registry calls := by
  induction calls generalizing registry with
  | nil => simp [upsertAll, acceptedUpserts]
  | cons record calls ih =>
      rw [upsertAll, List.foldl_cons, ← upsertAll, ih, acceptedUpserts, upsert_eq]
      cases admits registry.records record with
      | true => simp
      | false => simp

/-- A registry beside the log of what it has accepted: each agent's record is
the last one logged, and no logged one of the agent is above it. -/
structure Logged (registry : AgentRegistry) : Prop where
  last : ∀ a, registry.find a = findRecord a registry.onUpsert.reverse
  highest : ∀ a, revisionOf a registry.records = loggedRevision a registry.onUpsert

theorem logged_upsert (h : Logged registry) (record : AgentRecord) : Logged (registry.upsert record).1 := by
  rw [upsert_eq]
  split
  next ha =>
    refine ⟨fun a => ?_, fun a => ?_⟩
    · simp only [AgentRegistry.find, findRecord_storeRecord, List.reverse_append, List.reverse_singleton,
        List.singleton_append]
      have hlast := h.last a
      rw [AgentRegistry.find] at hlast
      by_cases he : a = record.agentId
      · subst he
        simp [findRecord, lookup]
      · rw [if_neg he, hlast]
        simp [findRecord, lookup, Ne.symm he]
    · simp only [revisionOf_storeRecord_of_admits a ha, loggedRevision_append, h.highest a]
  next => exact h

theorem logged_upsertAll (calls : List AgentRecord) (h : Logged registry) : Logged (upsertAll registry calls) := by
  induction calls generalizing registry with
  | nil => exact h
  | cons record calls ih => exact ih (logged_upsert h record)

/-- An agent whose last logged record repeats a revision has the same content
in the first record that was logged at that revision. -/
def RepeatsAgree (log : List AgentRecord) : Prop :=
  ∀ a last first, findRecord a log.reverse = some last →
    log.find? (fun r => r.agentId = a ∧ r.revision = last.revision) = some first → SameButExpiry first last

theorem find_stampFirst {l : List AgentRecord} {v : UInt64} {x : AgentRecord}
    (h : (stampFirst farFuture l).find? (fun r => r.revision = v) = some x) :
    ∃ first, l.find? (fun r => r.revision = v) = some first ∧ SameButExpiry x first := by
  cases l with
  | nil => cases h
  | cons r rs =>
      by_cases hv : r.revision = v
      · simp only [stampFirst, List.find?_cons, restamp_revision, hv, decide_true, Option.some.injEq] at h ⊢
        exact ⟨r, rfl, h ▸ sameButExpiry_restamp r farFuture⟩
      · simp only [stampFirst, List.find?_cons, restamp_revision, hv, decide_false] at h ⊢
        exact ⟨x, h, SameButExpiry.refl x⟩

/-- The replay of a log gives each agent the first record that was logged at
its highest revision. -/
theorem find_replayed {x : AgentRecord} (h : (({} : AgentRegistry).loadFromPersistence now log).find agentId = some x) :
    ∃ first, log.find? (fun r => r.agentId = agentId ∧ r.revision = x.revision) = some first ∧
      SameButExpiry x first := by
  rw [find_loadFromPersistence] at h
  obtain ⟨first, hfirst, hsame⟩ := find_stampFirst (isFirstOfMaximum h).find
  refine ⟨first, ?_, hsame⟩
  rw [List.find?_filter] at hfirst
  rw [← hfirst]
  congr 1
  funext r
  simp [Bool.decide_and]

theorem rel_replayed_iff {live : Option AgentRecord}
    (hrevision : ((({} : AgentRegistry).loadFromPersistence now log).find agentId).map AgentRecord.revision =
      live.map AgentRecord.revision) :
    Option.Rel SameButExpiry ((({} : AgentRegistry).loadFromPersistence now log).find agentId) live ↔
      ∀ last first, live = some last →
        log.find? (fun r => r.agentId = agentId ∧ r.revision = last.revision) = some first →
          SameButExpiry first last := by
  cases live with
  | none =>
      rw [Option.map_none, Option.map_eq_none_iff] at hrevision
      rw [hrevision]
      simp
  | some last =>
      rw [Option.map_some, Option.map_eq_some_iff] at hrevision
      obtain ⟨x, hx, hrevision⟩ := hrevision
      obtain ⟨first, hfirst, hsame⟩ := find_replayed hx
      rw [hrevision] at hfirst
      rw [hx]
      constructor
      · rintro (hrel | _) last' first' hl hf
        rw [Option.some.injEq] at hl
        subst hl
        rw [hfirst, Option.some.injEq] at hf
        subst hf
        exact hsame.symm.trans hrel
      · intro hagree
        exact Option.Rel.some (hsame.trans (hagree last first rfl hfirst))

/-- The registry lets an equal revision replace a record and the replay does
not, so the two agree just where no such replacement is left at the end. -/
theorem replay_upserts_iff (now : TimePoint) (calls : List AgentRecord) :
    (∀ a, Option.Rel SameButExpiry
      ((({} : AgentRegistry).loadFromPersistence now (acceptedUpserts {} calls)).find a)
      ((upsertAll {} calls).find a)) ↔ RepeatsAgree (acceptedUpserts {} calls) := by
  have hstart : Logged {} := ⟨fun _ => rfl, fun _ => rfl⟩
  have hlogged := logged_upsertAll calls hstart
  have hlog : (upsertAll {} calls).onUpsert = acceptedUpserts {} calls := upsertAll_onUpsert {} calls
  have hrevisions : SameRevisions
      (({} : AgentRegistry).loadFromPersistence now (acceptedUpserts {} calls)).records
      (upsertAll {} calls).records := by
    rw [sameRevisions_iff]
    intro a
    rw [revisionOf_loadFromPersistence, hlogged.highest, hlog]
  refine forall_congr' fun a => ?_
  have hlast := hlogged.last a
  rw [hlog] at hlast
  rw [← hlast]
  exact rel_replayed_iff (hrevisions a)

def endpointRecord (endpoint : Bytes) : AgentRecord :=
  { agentId := ascii "a", endpoint := endpoint, revision := 1, expiresAt := 0 }

def movedAgent : List AgentRecord := [endpointRecord (ascii "tcp://a"), endpointRecord (ascii "tcp://b")]

/-- A new endpoint at the old revision: it is accepted, and the replay brings
the old one back. -/
theorem replay_upserts_differ :
    ¬ Option.Rel SameButExpiry
      ((({} : AgentRegistry).loadFromPersistence 0 (acceptedUpserts {} movedAgent)).find (ascii "a"))
      ((upsertAll {} movedAgent).find (ascii "a")) := by
  intro hrel
  have hreplayed : (({} : AgentRegistry).loadFromPersistence 0 (acceptedUpserts {} movedAgent)).find (ascii "a") =
      some ((endpointRecord (ascii "tcp://a")).restamp (0 + hours (24 * 365))) := by decide
  have hlive : (upsertAll {} movedAgent).find (ascii "a") = some (endpointRecord (ascii "tcp://b")) := by decide
  rw [hreplayed, hlive] at hrel
  cases hrel with
  | some hsame => exact absurd hsame (by decide)

end BeaconNode.LogReload
