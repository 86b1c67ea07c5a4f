import BeaconNode.ReplayLoop

namespace BeaconNode.FailedSnapshots

open Words TextStream Persistence WalReplay EntryWire SnapshotFiles ReplayLoop

variable {codec : EntryMessage} {service : PersistenceService} {io : SnapshotIo} {entries : List RegistryEntry}

theorem createSnapshot_not_opened (h : io.opensTemporary = false) :
    recover codec (createSnapshot codec io service entries).disk = recover codec service.disk := by
  simp only [createSnapshot, h, Bool.false_eq_true, if_false]
  exact recover_openWal codec io.opensWal service.disk

theorem createSnapshot_not_renamed (ho : io.opensTemporary = true) (hr : io.renames = false)
    (ht : io.truncates = true) :
    recover codec (createSnapshot codec io service entries).disk = snapshotEntries codec service.disk.snapshot := by
  simp only [createSnapshot, ho, hr, ht, Bool.false_eq_true, if_true, if_false]
  rw [recover_openWal, recover_empty_wal]

/-- No intact record in the log file is newer than the snapshot, if that can
be read. -/
def LogIdle (codec : EntryMessage) (disk : Disk) : Prop :=
  ∀ stored, snapshotEntries codec disk.snapshot = .ok stored →
    ∀ wal ∈ disk.wal, ∀ found left, Scans codec wal found left → ∀ entry ∈ found, entry.timestamp ≤ maxTimestamp stored

theorem walEntries_eq_nil {after : UInt64} {wal : Option Bytes} :
    walEntries codec after wal = [] ↔
      ∀ bytes ∈ wal, ∀ found left, Scans codec bytes found left → ∀ entry ∈ found, entry.timestamp ≤ after := by
  cases wal with
  | none => simp [walEntries]
  | some bytes =>
      rw [walEntries, List.eq_nil_iff_forall_not_mem]
      constructor
      · rintro h _ ⟨⟩ found left hscan entry hentry
        by_contra hnewer
        exact h entry (mem_replay.mpr ⟨not_le.mp hnewer, found, left, hscan, hentry⟩)
      · intro h entry hentry
        obtain ⟨hnewer, found, left, hscan, hmem⟩ := mem_replay.mp hentry
        exact absurd hnewer (not_lt.mpr (h bytes rfl found left hscan entry hmem))

theorem recover_eq_snapshotEntries_iff (codec : EntryMessage) (disk : Disk) :
    snapshotEntries codec disk.snapshot = recover codec disk ↔ LogIdle codec disk := by
  cases hs : snapshotEntries codec disk.snapshot with
  | error e => simp [recover, LogIdle, hs, bind, Except.bind]
  | ok stored =>
      have hrecover : recover codec disk =
          .ok (stored ++ walEntries codec (maxTimestamp stored) disk.wal) := by
        rw [recover, hs]
        rfl
      rw [hrecover, Except.ok.injEq, List.self_eq_append_right, walEntries_eq_nil]
      constructor
      · intro h other ho
        obtain rfl : stored = other := Except.ok.inj (hs.symm.trans ho)
        exact h
      · exact fun h => h stored hs

/-- The log is cut even where the rename has failed, so a failed snapshot
keeps what recovery returns just when the rename is not reached or the log
adds nothing. -/
theorem failed_snapshot_iff (codec : EntryMessage) (io : SnapshotIo) (service : PersistenceService)
    (entries : List RegistryEntry) (hfails : io.opensTemporary = false ∨ io.renames = false)
    (htruncates : io.truncates = true) :
    recover codec (createSnapshot codec io service entries).disk = recover codec service.disk ↔
      io.opensTemporary = false ∨ LogIdle codec service.disk := by
  cases ho : io.opensTemporary with
  | false => simp [createSnapshot_not_opened ho]
  | true =>
      have hr : io.renames = false := hfails.resolve_left (by simp [ho])
      rw [createSnapshot_not_renamed ho hr htruncates, recover_eq_snapshotEntries_iff]
      simp

/-- Two entries in the snapshot, and one in the log that is no newer. -/
def snapshotThenLate : PersistenceService :=
  appendEntry entryCodec (createSnapshot entryCodec {} (start {}) [plainEntry "agent-1" 5, plainEntry "agent-2" 3])
    (plainEntry "agent-3" 4)

theorem failed_snapshot_snapshotThenLate :
    recover entryCodec (createSnapshot entryCodec { renames := false } snapshotThenLate
      [plainEntry "agent-3" 4]).disk = .ok [plainEntry "agent-1" 5, plainEntry "agent-2" 3] := by
  have hrecover : recover entryCodec snapshotThenLate.disk = .ok [plainEntry "agent-1" 5, plainEntry "agent-2" 3] := by
    decide +kernel
  have hidle : LogIdle entryCodec snapshotThenLate.disk := by
    rw [← recover_eq_snapshotEntries_iff, hrecover]
    decide +kernel
  rw [← hrecover]
  exact (failed_snapshot_iff entryCodec { renames := false } snapshotThenLate [plainEntry "agent-3" 4] (Or.inr rfl)
    rfl).mpr (Or.inr hidle)

def loggedOnce : PersistenceService := appendEntry entryCodec (start {}) (plainEntry "agent-1" 5)

/-- One logged entry, and a snapshot of it whose rename fails. -/
theorem failed_snapshot_loses_entry :
    recover entryCodec loggedOnce.disk = .ok [plainEntry "agent-1" 5] ∧
      recover entryCodec (createSnapshot entryCodec { renames := false } loggedOnce [plainEntry "agent-1" 5]).disk =
        .ok [] :=
  ⟨by decide +kernel, createSnapshot_not_renamed rfl rfl rfl⟩

end BeaconNode.FailedSnapshots
