import BeaconNode.SnapshotFiles
import BeaconNode.WalDurability

namespace BeaconNode.ReplayLoop

open Words TextStream Persistence WalReplay WalDurability EntryWire SnapshotFiles

/-- One turn of the log's loop: what it adds to the recovered entries and what
it leaves unread, and none where the loop ends. -/
def walTurn (codec : EntryMessage) (after : UInt64) (bytes : Bytes) : Option (List RegistryEntry × Bytes) :=
  match readWord bytes with
  | none => none
  | some (size, sized) =>
      match readWord sized with
      | none => none
      | some (checksum, summed) =>
          if maxEntrySize < size then some ([], summed)
          else match readBytes size.toNat summed with
            | none => none
            | some (buffer, unread) =>
                some (((checkedEntry codec checksum buffer).filter (fun entry => after < entry.timestamp)).toList,
                  unread)

/-- The loop over the bytes comes to its end with the entries. -/
inductive LoopEnds (codec : EntryMessage) (after : UInt64) : Bytes → List RegistryEntry → Prop
  | stop {bytes : Bytes} (h : walTurn codec after bytes = none) : LoopEnds codec after bytes []
  | turn {bytes rest : Bytes} {found entries : List RegistryEntry}
      (h : walTurn codec after bytes = some (found, rest)) (hrest : LoopEnds codec after rest entries) :
      LoopEnds codec after bytes (found ++ entries)

variable {codec : EntryMessage} {after : UInt64} {bytes rest : Bytes} {found entries : List RegistryEntry}

theorem walTurn_cases (h : walTurn codec after bytes = some (found, rest)) :
    (∃ size checksum, maxEntrySize < size ∧ bytes = leBytes size ++ (leBytes checksum ++ rest) ∧ found = []) ∨
    ∃ checksum buffer, buffer.length ≤ maxEntrySize.toNat ∧
      bytes = leBytes (UInt32.ofNat buffer.length) ++ (leBytes checksum ++ (buffer ++ rest)) ∧
      found = ((checkedEntry codec checksum buffer).filter (fun entry => after < entry.timestamp)).toList := by
  simp only [walTurn] at h
  split at h
  next => cases h
  next size sized hsize =>
    split at h
    next => cases h
    next checksum summed hsum =>
      obtain rfl := eq_of_readWord hsize
      obtain rfl := eq_of_readWord hsum
      split at h
      next hmax =>
        obtain ⟨rfl, rfl⟩ := Prod.mk.inj (Option.some.inj h)
        exact Or.inl ⟨size, checksum, hmax, rfl, rfl⟩
      next hmax =>
        split at h
        next => cases h
        next buffer unread hbuffer =>
          obtain ⟨rfl, hlength⟩ := eq_of_readBytes hbuffer
          obtain ⟨rfl, rfl⟩ := Prod.mk.inj (Option.some.inj h)
          refine Or.inr ⟨checksum, buffer, ?_, ?_, rfl⟩
          · rw [UInt32.lt_iff_toNat_lt, not_lt] at hmax
            rwa [hlength]
          · rw [hlength, UInt32.ofNat_toNat]

theorem walTurn_length (h : walTurn codec after bytes = some (found, rest)) : rest.length < bytes.length := by
  rcases walTurn_cases h with ⟨size, checksum, -, rfl, -⟩ | ⟨checksum, buffer, -, rfl, -⟩
  · simp only [List.length_append, leBytes_length]
    omega
  · simp only [List.length_append, leBytes_length]
    omega

theorem replay_stop (h : walTurn codec after bytes = none) : replay codec after bytes = [] := by
  simp only [walTurn] at h
  split at h
  next hsize => exact replay_no_size hsize
  next size sized hsize =>
    split at h
    next hsum => exact replay_no_checksum hsize hsum
    next checksum summed hsum =>
      split at h
      next => cases h
      next hmax =>
        split at h
        next hbuffer => exact replay_no_payload hsize hsum hmax hbuffer
        next => cases h

theorem replay_turn (h : walTurn codec after bytes = some (found, rest)) :
    replay codec after bytes = found ++ replay codec after rest := by
  rcases walTurn_cases h with ⟨size, checksum, hmax, rfl, rfl⟩ | ⟨checksum, buffer, hlength, rfl, rfl⟩
  · exact replay_oversized (readWord_leBytes _ _) (readWord_leBytes _ _) hmax
  · exact replay_record hlength checksum rest

/-- The loop ends on every file, with the entries of the replay. -/
theorem loopEnds_replay (codec : EntryMessage) (after : UInt64) (bytes : Bytes) :
    LoopEnds codec after bytes (replay codec after bytes) := by
  induction hn : bytes.length using Nat.strong_induction_on generalizing bytes with
  | _ n ih =>
      cases h : walTurn codec after bytes with
      | none =>
          rw [replay_stop h]
          exact LoopEnds.stop h
      | some p =>
          obtain ⟨found, rest⟩ := p
          rw [replay_turn h]
          exact LoopEnds.turn h (ih rest.length (hn ▸ walTurn_length h) rest rfl)

/-- The bytes begin with a row of records, each a header with its payload, or
a header alone where it announces more than the limit. The intact ones hold the
entries, and the rest follows the row. -/
inductive Scans (codec : EntryMessage) : Bytes → List RegistryEntry → Bytes → Prop
  | done (bytes : Bytes) : Scans codec bytes [] bytes
  | record {payload rest left : Bytes} {found : List RegistryEntry} (checksum : UInt32)
      (hlength : payload.length ≤ maxEntrySize.toNat) (hrest : Scans codec rest found left) :
      Scans codec (leBytes (UInt32.ofNat payload.length) ++ (leBytes checksum ++ (payload ++ rest)))
        ((checkedEntry codec checksum payload).toList ++ found) left
  | oversized {size : UInt32} {rest left : Bytes} {found : List RegistryEntry} (checksum : UInt32)
      (hsize : maxEntrySize < size) (hrest : Scans codec rest found left) :
      Scans codec (leBytes size ++ (leBytes checksum ++ rest)) found left

theorem Scans.replay_append {left : Bytes} (h : Scans codec bytes found left) (more : Bytes) :
    replay codec after (bytes ++ more) =
      found.filter (fun entry => after < entry.timestamp) ++ replay codec after (left ++ more) := by
  induction h with
  | done => rfl
  | record checksum hlength _ ih =>
      rw [List.append_assoc, List.append_assoc, List.append_assoc, replay_record hlength, ih, List.filter_append,
        Option.toList_filter, List.append_assoc]
  | oversized checksum hsize _ ih =>
      rw [List.append_assoc, List.append_assoc,
        replay_oversized (readWord_leBytes _ _) (readWord_leBytes _ _) hsize, ih]

theorem LoopEnds.scans (h : LoopEnds codec after bytes entries) :
    ∃ found left, Scans codec bytes found left ∧ entries = found.filter (fun entry => after < entry.timestamp) := by
  induction h with
  | @stop bytes _ => exact ⟨[], bytes, .done bytes, rfl⟩
  | turn hturn _ ih =>
      obtain ⟨later, left, hscan, rfl⟩ := ih
      rcases walTurn_cases hturn with ⟨size, checksum, hsize, rfl, rfl⟩ | ⟨checksum, buffer, hlength, rfl, rfl⟩
      · exact ⟨later, left, .oversized checksum hsize hscan, rfl⟩
      · refine ⟨_, left, .record checksum hlength hscan, ?_⟩
        rw [List.filter_append, Option.toList_filter]

/-- The replay is what any row of records can show that is newer. -/
theorem mem_replay {entry : RegistryEntry} :
    entry ∈ replay codec after bytes ↔
      after < entry.timestamp ∧ ∃ found left, Scans codec bytes found left ∧ entry ∈ found := by
  constructor
  · intro h
    obtain ⟨found, left, hscan, he⟩ := (loopEnds_replay codec after bytes).scans
    rw [he, List.mem_filter, decide_eq_true_eq] at h
    exact ⟨h.2, found, left, hscan, h.1⟩
  · rintro ⟨hnewer, found, left, hscan, hmem⟩
    have hreplay : replay codec after (bytes ++ []) = _ := hscan.replay_append []
    rw [List.append_nil] at hreplay
    rw [hreplay]
    exact List.mem_append_left _ (List.mem_filter.mpr ⟨hmem, decide_eq_true hnewer⟩)

/-- The entry is the parse of a range of the file, given by its start and its
length, and the range has its length and its checksum right before it. -/
def RecordAt (codec : EntryMessage) (file : Bytes) (range : Nat × Nat) (entry : RegistryEntry) : Prop :=
  ∃ before payload after,
    file = before ++ (leBytes (UInt32.ofNat payload.length) ++ (leBytes (computeCrc32 payload) ++ (payload ++ after))) ∧
    range = (before.length + 8, payload.length) ∧ payload.length ≤ 10 * 1024 * 1024 ∧
    codec.parse payload = some entry

/-- The entries are read from ranges that follow one another from the given
place on, no two of them with a byte in common. -/
def RecordsFrom (codec : EntryMessage) (file : Bytes) (start : Nat) (entries : List RegistryEntry) : Prop :=
  ∃ ranges : List (Nat × Nat), List.Forall₂ (RecordAt codec file) ranges entries ∧
    ranges.Pairwise (fun p q => p.1 + p.2 + 8 ≤ q.1) ∧ ∀ p ∈ ranges, start + 8 ≤ p.1

def RecordsIn (codec : EntryMessage) (file : Option Bytes) (entries : List RegistryEntry) : Prop :=
  match file with
  | none => entries = []
  | some bytes => RecordsFrom codec bytes 0 entries

theorem RecordsFrom.nil (codec : EntryMessage) (file : Bytes) (start : Nat) : RecordsFrom codec file start [] :=
  ⟨[], List.Forall₂.nil, List.Pairwise.nil, by simp⟩

theorem RecordsFrom.mono {file : Bytes} {start later : Nat} (h : RecordsFrom codec file later entries)
    (hle : start ≤ later) : RecordsFrom codec file start entries := by
  obtain ⟨ranges, hranges, hdisjoint, hstart⟩ := h
  exact ⟨ranges, hranges, hdisjoint, fun p hp => (Nat.add_le_add_right hle 8).trans (hstart p hp)⟩

theorem checkedEntry_eq_some {checksum : UInt32} {buffer : Bytes} {entry : RegistryEntry} :
    checkedEntry codec checksum buffer = some entry ↔
      computeCrc32 buffer = checksum ∧ codec.parse buffer = some entry := by
  simp only [checkedEntry]
  by_cases h : computeCrc32 buffer = checksum
  · simp [h]
  · simp [h]

theorem RecordsFrom.cons {file before buffer : Bytes} {checksum : UInt32} {found : Option RegistryEntry}
    (hfile : file = before ++ (leBytes (UInt32.ofNat buffer.length) ++ (leBytes checksum ++ (buffer ++ rest))))
    (hlength : buffer.length ≤ maxEntrySize.toNat)
    (hfound : ∀ entry ∈ found, checkedEntry codec checksum buffer = some entry)
    (h : RecordsFrom codec file (before.length + 8 + buffer.length) entries) :
    RecordsFrom codec file before.length (found.toList ++ entries) := by
  cases found with
  | none => exact h.mono (by omega)
  | some entry =>
      obtain ⟨ranges, hranges, hdisjoint, hstart⟩ := h
      obtain ⟨rfl, hparse⟩ := checkedEntry_eq_some.mp (hfound entry rfl)
      have hat : RecordAt codec file (before.length + 8, buffer.length) entry :=
        ⟨before, buffer, rest, hfile, rfl, hlength, hparse⟩
      refine ⟨(before.length + 8, buffer.length) :: ranges, List.Forall₂.cons hat hranges, ?_, ?_⟩
      · exact List.Pairwise.cons (fun q hq => hstart q hq) hdisjoint
      · intro p hp
        rcases List.mem_cons.mp hp with rfl | hp
        · exact le_rfl
        · have := hstart p hp
          omega

theorem loopEnds_recordsFrom (h : LoopEnds codec after bytes entries) (before : Bytes) :
    RecordsFrom codec (before ++ bytes) before.length entries := by
  induction h generalizing before with
  | stop => exact RecordsFrom.nil codec _ _
  | @turn bytes rest found entries hturn _ ih =>
      rcases walTurn_cases hturn with ⟨size, checksum, -, rfl, rfl⟩ | ⟨checksum, buffer, hlength, rfl, rfl⟩
      · have hrest := ih (before ++ (leBytes size ++ leBytes checksum))
        simp only [List.append_assoc, List.length_append] at hrest
        exact hrest.mono (Nat.le_add_right _ _)
      · have hrest := ih (before ++ (leBytes (UInt32.ofNat buffer.length) ++ (leBytes checksum ++ buffer)))
        simp only [List.append_assoc, List.length_append, leBytes_length] at hrest
        apply RecordsFrom.cons rfl hlength
        · intro entry hentry
          exact (Option.filter_eq_some_iff.mp hentry).1
        · convert hrest using 1
          omega

theorem readSnapshot_cases {count : Nat} (h : readSnapshot codec (count + 1) bytes = .ok (entries, rest)) :
    entries = [] ∨ ∃ checksum buffer unread later, buffer.length ≤ maxEntrySize.toNat ∧
      bytes = leBytes (UInt32.ofNat buffer.length) ++ (leBytes checksum ++ (buffer ++ unread)) ∧
      readSnapshot codec count unread = .ok (later, rest) ∧
      entries = (checkedEntry codec checksum buffer).toList ++ later := by
  simp only [readSnapshot] at h
  split at h
  next => exact Or.inl (congrArg Prod.fst (Except.ok.inj h)).symm
  next size sized hsize =>
    split at h
    next => cases h
    next hmax =>
      split at h
      next => exact Or.inl (congrArg Prod.fst (Except.ok.inj h)).symm
      next checksum summed hsum =>
        split at h
        next => exact Or.inl (congrArg Prod.fst (Except.ok.inj h)).symm
        next buffer unread hbuffer =>
          obtain rfl := eq_of_readWord hsize
          obtain rfl := eq_of_readWord hsum
          obtain ⟨rfl, hlength⟩ := eq_of_readBytes hbuffer
          cases hrest : readSnapshot codec count unread with
          | error e => simp [hrest, bind, Except.bind] at h
          | ok p =>
              obtain ⟨later, left⟩ := p
              rw [hrest] at h
              obtain ⟨rfl, rfl⟩ := Prod.mk.inj (Except.ok.inj h)
              refine Or.inr ⟨checksum, buffer, unread, later, ?_, ?_, hrest, rfl⟩
              · rw [UInt32.lt_iff_toNat_lt, not_lt] at hmax
                rwa [hlength]
              · rw [hlength, UInt32.ofNat_toNat]

theorem readSnapshot_recordsFrom {count : Nat} (h : readSnapshot codec count bytes = .ok (entries, rest))
    (before : Bytes) : RecordsFrom codec (before ++ bytes) before.length entries := by
  induction count generalizing bytes entries before with
  | zero =>
      cases h
      exact RecordsFrom.nil codec _ _
  | succ count ih =>
      rcases readSnapshot_cases h with rfl | ⟨checksum, buffer, unread, later, hlength, rfl, hlater, rfl⟩
      · exact RecordsFrom.nil codec _ _
      · have hrest := ih hlater (before ++ (leBytes (UInt32.ofNat buffer.length) ++ (leBytes checksum ++ buffer)))
        simp only [List.append_assoc, List.length_append, leBytes_length] at hrest
        apply RecordsFrom.cons rfl hlength
        · exact fun entry hentry => hentry
        · convert hrest using 1
          omega

theorem readSnapshot_nil (codec : EntryMessage) (count : Nat) : readSnapshot codec count [] = .ok ([], []) := by
  cases count with
  | zero => rfl
  | succ count => rfl

theorem recoverSnapshot_recordsFrom (h : recoverSnapshot codec bytes = .ok entries) :
    RecordsFrom codec bytes 0 entries := by
  simp only [recoverSnapshot] at h
  split at h
  next => cases h
  next =>
    cases hread : readSnapshot codec (readHeader bytes).1.toNat (readHeader bytes).2 with
    | error e => simp [hread, bind, Except.bind] at h
    | ok p =>
        obtain ⟨read, rest⟩ := p
        rw [hread] at h
        have hentries : entries = read := by
          change (if rest ≠ [] then _ else _) = _ at h
          split at h
          next => cases h
          next => exact (Except.ok.inj h).symm
        subst hentries
        -- without a whole header there is nothing left to read
        cases hheader : readWord bytes with
        | none =>
            simp only [readHeader, hheader] at hread
            rw [readSnapshot_nil, Except.ok.injEq] at hread
            cases hread
            exact RecordsFrom.nil codec _ _
        | some q =>
            obtain ⟨total, records⟩ := q
            obtain rfl := eq_of_readWord hheader
            simp only [readHeader, hheader] at hread
            have hrecords := readSnapshot_recordsFrom hread (leBytes total)
            exact hrecords.mono (Nat.zero_le _)

theorem maxTimestamp_ge {entry : RegistryEntry} (h : entry ∈ entries) : entry.timestamp ≤ maxTimestamp entries := by
  have hfold : ∀ (l : List RegistryEntry) (t : UInt64), ∀ s, s ≤ t ∨ (∃ e ∈ l, e.timestamp = s) →
      s ≤ l.foldl (fun latest e => if latest < e.timestamp then e.timestamp else latest) t := by
    intro l
    induction l with
    | nil => simp
    | cons x l ih =>
        intro t s hs
        rw [List.foldl_cons]
        apply ih
        rcases hs with hs | ⟨e, he, rfl⟩
        · left
          split
          next hlt => exact hs.trans hlt.le
          next => exact hs
        · rcases List.mem_cons.mp he with rfl | he
          · left
            split
            next => exact le_rfl
            next hge => exact not_lt.mp hge
          · exact Or.inr ⟨e, he, rfl⟩
  exact hfold entries 0 entry.timestamp (Or.inr ⟨entry, h, rfl⟩)

theorem loopEnds_newer (h : LoopEnds codec after bytes entries) : ∀ e ∈ entries, after < e.timestamp := by
  induction h with
  | stop => simp
  | @turn bytes rest found entries hturn _ ih =>
      intro e he
      rcases List.mem_append.mp he with he | he
      · rcases walTurn_cases hturn with ⟨_, _, -, -, rfl⟩ | ⟨checksum, buffer, -, -, rfl⟩
        · cases he
        · have hfilter := (Option.filter_eq_some_iff.mp (Option.mem_toList.mp he)).2
          simpa using hfilter
      · exact ih e he

theorem walEntries_recordsIn (codec : EntryMessage) (after : UInt64) (wal : Option Bytes) :
    RecordsIn codec wal (walEntries codec after wal) ∧ ∀ e ∈ walEntries codec after wal, after < e.timestamp := by
  cases wal with
  | none => exact ⟨rfl, by simp [walEntries]⟩
  | some bytes =>
      have hends := loopEnds_replay codec after bytes
      exact ⟨loopEnds_recordsFrom hends [], loopEnds_newer hends⟩

theorem snapshotEntries_recordsIn {snapshot : Option Bytes} (h : snapshotEntries codec snapshot = .ok entries) :
    RecordsIn codec snapshot entries := by
  cases snapshot with
  | none => exact (Except.ok.inj h).symm
  | some bytes => exact recoverSnapshot_recordsFrom h

/-- On any bytes the loops end, and what recovery returns has been read from
records of the two files, the log's newer than all of the snapshot's. -/
theorem recover_sound (codec : EntryMessage) (disk : Disk) :
    (∀ after, ∀ bytes ∈ disk.wal, LoopEnds codec after bytes (replay codec after bytes)) ∧
    ((∃ error, recover codec disk = .error error) ∨
      ∃ stored logged, recover codec disk = .ok (stored ++ logged) ∧
        RecordsIn codec disk.snapshot stored ∧ RecordsIn codec disk.wal logged ∧
        ∀ s ∈ stored, ∀ e ∈ logged, s.timestamp < e.timestamp) := by
  refine ⟨fun after bytes _ => loopEnds_replay codec after bytes, ?_⟩
  cases hstored : snapshotEntries codec disk.snapshot with
  | error error =>
      left
      exact ⟨error, by rw [recover, hstored]; rfl⟩
  | ok stored =>
      right
      obtain ⟨hlogged, hnewer⟩ := walEntries_recordsIn codec (maxTimestamp stored) disk.wal
      refine ⟨stored, walEntries codec (maxTimestamp stored) disk.wal, by rw [recover, hstored]; rfl,
        snapshotEntries_recordsIn hstored, hlogged, fun s hs e he => ?_⟩
      exact (maxTimestamp_ge hs).trans_lt (hnewer e he)

end BeaconNode.ReplayLoop
