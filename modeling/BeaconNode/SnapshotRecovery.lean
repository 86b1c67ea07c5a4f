import BeaconNode.EntryWire
import BeaconNode.Runs
import BeaconNode.VersionedLog

namespace BeaconNode.SnapshotRecovery

open Words TextStream Persistence WalReplay EntryWire VersionedLog Runs

inductive StoreEvent
  | append (entry : RegistryEntry)
  | snapshot (entries : List RegistryEntry)

/-- The service with the history of the run: all entries appended so far and
the entries of the last snapshot. -/
structure StoreRun where
  service : PersistenceService := start {}
  appended : List RegistryEntry := []
  snapshot : List RegistryEntry := []

def storeStep (codec : EntryCodec) (s : StoreRun) : StoreEvent → StoreRun
  | .append entry =>
      { s with service := appendEntry codec s.service entry, appended := s.appended ++ [entry] }
  | .snapshot entries => { s with service := createSnapshot codec {} s.service entries, snapshot := entries }

/-- One entry for each agent, none older than another of the same agent. -/
structure NewestPerAgent (entries appended : List RegistryEntry) : Prop where
  nodup : (entries.map RegistryEntry.agentId).Nodup
  mem : ∀ e ∈ entries, e ∈ appended
  newest : ∀ f ∈ appended, ∃ e ∈ entries, e.agentId = f.agentId ∧ f.timestamp ≤ e.timestamp

def Admissible (codec : EntryCodec) (s : StoreRun) : StoreEvent → Prop
  | .append entry => Fits codec entry ∧ 1 ≤ entry.timestamp
  | .snapshot entries => NewestPerAgent entries s.appended ∧ entries.length < 1000000

def newestFor (agentId : Bytes) (entries : List RegistryEntry) : WithBot UInt64 :=
  latest RegistryEntry.agentId RegistryEntry.timestamp agentId entries

/-- Recovery succeeds and knows each agent at its newest timestamp. -/
def LosesNothing (codec : EntryCodec) (s : StoreRun) : Prop :=
  ∃ entries, recover codec s.service.disk = .ok entries ∧
    ∀ agentId, newestFor agentId entries = newestFor agentId s.appended

/-- The entry is newer than the whole last snapshot, or not the newest of its
agent. -/
def NewerThanSnapshot (s : StoreRun) : StoreEvent → Prop
  | .append entry => maxTimestamp s.snapshot < entry.timestamp ∨
      ∃ f ∈ s.appended, f.agentId = entry.agentId ∧ entry.timestamp ≤ f.timestamp
  | .snapshot _ => True

/-- The snapshot file holds the last snapshot and the log the entries that
came after it. -/
structure StoreShape (codec : EntryCodec) (s : StoreRun) : Prop where
  walFile : s.service.walFile = true
  fits : ∀ e ∈ s.appended, Fits codec e
  stored : snapshotEntries codec s.service.disk.snapshot = .ok s.snapshot
  wal : ∃ later : List RegistryEntry, s.service.disk.wal = some (later.flatMap (entryBytes codec)) ∧
    ∀ e ∈ later, Fits codec e

variable {codec : EntryCodec} {s : StoreRun}

theorem recover_of_shape (later : List RegistryEntry)
    (hs : snapshotEntries codec s.service.disk.snapshot = .ok s.snapshot)
    (hw : s.service.disk.wal = some (later.flatMap (entryBytes codec))) (hf : ∀ e ∈ later, Fits codec e) :
    recover codec s.service.disk =
      .ok (s.snapshot ++ later.filter (fun e => maxTimestamp s.snapshot < e.timestamp)) := by
  have hreplay := replay_entries (maxTimestamp s.snapshot) (fun e he => (hf e he).readBack) []
  rw [List.append_nil] at hreplay
  rw [recover, hs, hw]
  refine congrArg Except.ok (congrArg (s.snapshot ++ ·) (hreplay.trans ?_))
  exact List.append_nil _

theorem storeShape_append {entry : RegistryEntry} (h : StoreShape codec s) (ha : Fits codec entry) :
    StoreShape codec (storeStep codec s (.append entry)) := by
  obtain ⟨later, hw, hf⟩ := h.wal
  simp only [storeStep, appendEntry, h.walFile, if_true]
  refine ⟨rfl, fun e he => ?_, h.stored, later ++ [entry], ?_, fun e he => ?_⟩
  · rcases List.mem_append.mp he with he | he
    · exact h.fits e he
    · rw [List.mem_singleton.mp he]
      exact ha
  · simp [writeWal, hw]
  · rcases List.mem_append.mp he with he | he
    · exact hf e he
    · rw [List.mem_singleton.mp he]
      exact ha

theorem storeShape_snapshot {entries : List RegistryEntry} (h : StoreShape codec s)
    (hn : NewestPerAgent entries s.appended) (hl : entries.length < 1000000) :
    StoreShape codec (storeStep codec s (.snapshot entries)) := by
  have hread : ∀ e ∈ entries, ReadBack codec e := fun e he => (h.fits e (hn.mem e he)).readBack
  refine ⟨rfl, h.fits, ?_, [], rfl, by simp⟩
  exact recoverSnapshot_snapshotBytes hread hl.le

theorem storeShape_storeStep (s : StoreRun) (event : StoreEvent) (h : StoreShape codec s)
    (ha : Admissible codec s event) : StoreShape codec (storeStep codec s event) := by
  cases event with
  | append entry => exact storeShape_append h ha.1
  | snapshot entries => exact storeShape_snapshot h ha.1 ha.2

theorem newestFor_append (agentId : Bytes) (l m : List RegistryEntry) :
    newestFor agentId (l ++ m) = max (newestFor agentId l) (newestFor agentId m) :=
  latest_append

theorem newestFor_singleton_le {entry : RegistryEntry} {entries : List RegistryEntry} :
    (∀ agentId, newestFor agentId [entry] ≤ newestFor agentId entries) ↔
      ∃ f ∈ entries, f.agentId = entry.agentId ∧ entry.timestamp ≤ f.timestamp := by
  rw [← coe_le_latest, ← newestFor]
  constructor
  · intro h
    have hself := h entry.agentId
    rw [newestFor, latest_singleton, if_pos rfl] at hself
    exact hself
  · intro h agentId
    rw [newestFor, latest_singleton]
    split
    next he => exact he ▸ h
    next => exact bot_le

theorem recover_append {entry : RegistryEntry} {recovered : List RegistryEntry} (h : StoreShape codec s)
    (ha : Fits codec entry) (hr : recover codec s.service.disk = .ok recovered) :
    recover codec (storeStep codec s (.append entry)).service.disk =
      .ok (recovered ++ [entry].filter (fun e => maxTimestamp s.snapshot < e.timestamp)) := by
  obtain ⟨later, hw, hf⟩ := h.wal
  rw [recover_of_shape later h.stored hw hf, Except.ok.injEq] at hr
  have hw' : (storeStep codec s (.append entry)).service.disk.wal =
      some ((later ++ [entry]).flatMap (entryBytes codec)) := by
    simp [storeStep, appendEntry, h.walFile, writeWal, hw]
  have hf' : ∀ e ∈ later ++ [entry], Fits codec e := by
    simpa [or_imp, forall_and] using ⟨hf, ha⟩
  rw [recover_of_shape _ (storeShape_append h ha).stored hw' hf', ← hr, List.filter_append, ← List.append_assoc]
  rfl

theorem losesNothing_of_recover {recovered : List RegistryEntry}
    (hr : recover codec s.service.disk = .ok recovered) :
    LosesNothing codec s ↔ ∀ agentId, newestFor agentId recovered = newestFor agentId s.appended := by
  constructor
  · rintro ⟨entries, he, hn⟩
    rw [hr, Except.ok.injEq] at he
    rw [he]
    exact hn
  · intro hn
    exact ⟨recovered, hr, hn⟩

theorem losesNothing_append {entry : RegistryEntry} (h : StoreShape codec s) (ha : Fits codec entry)
    (hp : LosesNothing codec s) :
    LosesNothing codec (storeStep codec s (.append entry)) ↔ NewerThanSnapshot s (.append entry) := by
  obtain ⟨recovered, hr, hsame⟩ := hp
  have happended : (storeStep codec s (.append entry)).appended = s.appended ++ [entry] := rfl
  rw [losesNothing_of_recover (recover_append h ha hr), happended]
  by_cases ht : maxTimestamp s.snapshot < entry.timestamp
  · refine iff_of_true (fun agentId => ?_) (Or.inl ht)
    have hkeep : [entry].filter (fun e => maxTimestamp s.snapshot < e.timestamp) = [entry] := by simp [ht]
    rw [hkeep, newestFor_append, newestFor_append, hsame]
  · have hdrop : [entry].filter (fun e => maxTimestamp s.snapshot < e.timestamp) = [] := by simpa using ht
    rw [hdrop, List.append_nil, NewerThanSnapshot, or_iff_right ht, ← newestFor_singleton_le]
    constructor
    · intro hn agentId
      have hmax := hn agentId
      rw [hsame, newestFor_append] at hmax
      exact max_eq_left_iff.mp hmax.symm
    · intro hle agentId
      rw [hsame, newestFor_append]
      exact (max_eq_left (hle agentId)).symm

theorem losesNothing_snapshot {entries : List RegistryEntry} (h : StoreShape codec s)
    (hn : NewestPerAgent entries s.appended) (hl : entries.length < 1000000) :
    LosesNothing codec (storeStep codec s (.snapshot entries)) := by
  have hshape := storeShape_snapshot h hn hl
  have hr := recover_of_shape [] hshape.stored rfl (by simp)
  refine ⟨_, hr, fun agentId => ?_⟩
  rw [List.filter_nil, List.append_nil]
  exact latest_of_representatives hn.mem hn.newest

/-- Snapshot and log together keep every agent's newest timestamp exactly
when each entry appended after a snapshot is newer than all of it, or not
the newest of its agent. -/
theorem losesNothing_iff_newer_than_snapshot (codec : EntryCodec) (events : List StoreEvent)
    (ha : Along (storeStep codec) (Admissible codec) {} events) :
    Always (storeStep codec) (LosesNothing codec) {} events ↔
      Along (storeStep codec) NewerThanSnapshot {} events := by
  apply always_iff_along (I := StoreShape codec) (A := Admissible codec)
  · exact ⟨rfl, by simp, rfl, [], rfl, by simp⟩
  · exact ⟨[], rfl, fun _ => rfl⟩
  · intro s event hi hae
    exact storeShape_storeStep s event hi hae
  · intro s event hi hae hp
    cases event with
    | append entry => exact losesNothing_append hi hae.1 hp
    | snapshot entries => exact iff_of_true (losesNothing_snapshot hi hae.1 hae.2) trivial
  · exact ha

def snapshotThenOther : List StoreEvent :=
  [.append (plainEntry "agent-1" 5), .snapshot [plainEntry "agent-1" 5], .append (plainEntry "agent-2" 1)]

theorem snapshotThenOther_admissible :
    Along (storeStep entryCodec) (Admissible entryCodec) {} snapshotThenOther := by
  have ha : Fits entryCodec (plainEntry "agent-1" 5) := fits_of_length (by decide)
  have hb : Fits entryCodec (plainEntry "agent-2" 1) := fits_of_length (by decide)
  have hn : NewestPerAgent [plainEntry "agent-1" 5] [plainEntry "agent-1" 5] := by
    refine ⟨List.nodup_singleton _, fun e he => he, fun f hf => ⟨f, hf, rfl, le_rfl⟩⟩
  refine along_cons.mpr ⟨⟨ha, by decide⟩, along_cons.mpr ⟨⟨hn, ?_⟩, along_cons.mpr ⟨⟨hb, by decide⟩, along_nil⟩⟩⟩
  rw [List.length_singleton]
  omega

theorem losesNothing_iff_snapshotThenOther :
    Always (storeStep entryCodec) (LosesNothing entryCodec) {} snapshotThenOther ↔
      Along (storeStep entryCodec) NewerThanSnapshot {} snapshotThenOther :=
  losesNothing_iff_newer_than_snapshot entryCodec snapshotThenOther snapshotThenOther_admissible

theorem snapshotThenOther_recover :
    recover entryCodec (snapshotThenOther.foldl (storeStep entryCodec) {}).service.disk =
      .ok [plainEntry "agent-1" 5] := by
  decide +kernel

/-- The second agent's first entry is older than the snapshot's only one. -/
theorem snapshotThenOther_loses_agent :
    Along (storeStep entryCodec) (Admissible entryCodec) {} snapshotThenOther ∧
      ¬ Always (storeStep entryCodec) (LosesNothing entryCodec) {} snapshotThenOther := by
  refine ⟨snapshotThenOther_admissible, fun h => ?_⟩
  have hbot : newestFor (ascii "agent-2") [plainEntry "agent-1" 5] = ⊥ :=
    latest_eq_bot.mpr (List.forall_mem_singleton.mpr (by decide))
  have hmem : plainEntry "agent-2" 1 ∈ (snapshotThenOther.foldl (storeStep entryCodec) {}).appended :=
    List.mem_cons_of_mem _ (List.mem_singleton_self _)
  have hnew := (losesNothing_of_recover snapshotThenOther_recover).mp h.last (ascii "agent-2")
  rw [hbot] at hnew
  exact latest_eq_bot.mp hnew.symm _ hmem rfl

end BeaconNode.SnapshotRecovery
