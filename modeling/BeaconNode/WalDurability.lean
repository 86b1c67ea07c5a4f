import BeaconNode.EntryWire
import BeaconNode.Runs

namespace BeaconNode.WalDurability

open Words TextStream Persistence WalReplay EntryWire Runs

/-- A crash happens during a call of append_entry and leaves the first bytes
of what the call would have written. -/
inductive WalEvent
  | append (entry : RegistryEntry)
  | crash (entry : RegistryEntry) (kept : Nat)
  | restart

/-- The service with the history of the run: the entries whose call came to
its end, and the number of crashes that left bytes behind. -/
structure LogRun where
  service : PersistenceService := start {}
  completed : List RegistryEntry := []
  tears : Nat := 0

/-- No call is made while the process is down. -/
def walStep (codec : EntryCodec) (s : LogRun) : WalEvent → LogRun
  | .append entry =>
      if s.service.walFile then
        { s with service := appendEntry codec s.service entry, completed := s.completed ++ [entry] }
      else s
  | .crash entry kept =>
      if s.service.walFile then
        { s with
          service := ⟨writeWal s.service.disk ((entryBytes codec entry).take kept), false⟩
          tears := if kept = 0 then s.tears else s.tears + 1 }
      else s
  | .restart => { s with service := start s.service.disk }

def Admissible (codec : EntryCodec) : WalEvent → Prop
  | .append entry => Fits codec entry ∧ 1 ≤ entry.timestamp
  | .crash entry kept => Fits codec entry ∧ 1 ≤ entry.timestamp ∧ kept < (entryBytes codec entry).length
  | .restart => True

/-- No call comes to its end after a crash that left bytes behind. -/
def AppendsUntorn (s : LogRun) : WalEvent → Prop
  | .append _ => s.service.walFile = true → s.tears = 0
  | .crash _ _ | .restart => True

def KeepsCompleted (codec : EntryCodec) (s : LogRun) : Prop :=
  ∃ entries, recover codec s.service.disk = .ok entries ∧ s.completed <+: entries ∧
    (s.tears ≤ 1 → entries = s.completed)

/-- The log is the records of the completed calls and a tail that the crashes
wrote. -/
structure LogShape (codec : EntryCodec) (s : LogRun) : Prop where
  snapshot : s.service.disk.snapshot = none
  fits : ∀ e ∈ s.completed, Fits codec e ∧ 1 ≤ e.timestamp
  wal : ∃ tail, s.service.disk.wal = some (s.completed.flatMap (entryBytes codec) ++ tail) ∧
    (s.tears = 0 → tail = []) ∧ (s.tears ≤ 1 → replay codec 0 tail = [])

variable {codec : EntryCodec} {s : LogRun}

theorem LogShape.keepsCompleted (h : LogShape codec s) : KeepsCompleted codec s := by
  obtain ⟨tail, hw, -, ht⟩ := h.wal
  have hkeep : s.completed.filter (fun e => 0 < e.timestamp) = s.completed := by
    rw [List.filter_eq_self]
    intro e he
    have hpos : (0 : UInt64) < e.timestamp := lt_of_lt_of_le (by decide) (h.fits e he).2
    simpa using hpos
  have hr : recover codec s.service.disk = .ok (s.completed ++ replay codec 0 tail) := by
    have hreplay := replay_entries 0 (fun e he => (h.fits e he).1.readBack) tail
    rw [hkeep] at hreplay
    rw [recover, h.snapshot, hw]
    exact congrArg Except.ok hreplay
  refine ⟨_, hr, List.prefix_append _ _, fun hle => ?_⟩
  rw [ht hle, List.append_nil]

theorem logShape_append {entry : RegistryEntry} (h : LogShape codec s) (hw : s.service.walFile = true)
    (ha : Admissible codec (.append entry)) (hq : s.tears = 0) :
    LogShape codec (walStep codec s (.append entry)) := by
  obtain ⟨tail, hwal, hnil, -⟩ := h.wal
  have htail := hnil hq
  subst htail
  simp only [walStep, hw, if_true, appendEntry]
  refine ⟨h.snapshot, fun e he => ?_, [], ?_, fun _ => rfl, fun _ => rfl⟩
  · rcases List.mem_append.mp he with he | he
    · exact h.fits e he
    · rw [List.mem_singleton.mp he]
      exact ha
  · simp [writeWal, hwal]

theorem logShape_crash {entry : RegistryEntry} {kept : Nat} (h : LogShape codec s)
    (hw : s.service.walFile = true) (ha : Admissible codec (.crash entry kept)) :
    LogShape codec (walStep codec s (.crash entry kept)) := by
  obtain ⟨tail, hwal, hnil, htorn⟩ := h.wal
  obtain ⟨hf, -, hk⟩ := ha
  simp only [walStep, hw, if_true]
  refine ⟨h.snapshot, h.fits, tail ++ (entryBytes codec entry).take kept, ?_, ?_, ?_⟩
  · simp [writeWal, hwal]
  · by_cases hz : kept = 0
    · simpa [hz] using hnil
    · simp [hz]
  · by_cases hz : kept = 0
    · simpa [hz] using htorn
    · intro hle
      have hfirst : s.tears = 0 := by
        simp only [hz, if_false] at hle
        omega
      rw [hnil hfirst, List.nil_append]
      exact replay_torn hf hk

theorem logShape_walStep (s : LogRun) (event : WalEvent) (h : LogShape codec s)
    (hq : Admissible codec event ∧ AppendsUntorn s event) : LogShape codec (walStep codec s event) := by
  obtain ⟨ha, hq⟩ := hq
  cases event with
  | append entry =>
      cases hw : s.service.walFile with
      | true => exact logShape_append h hw ha (hq hw)
      | false => simpa [walStep, hw] using h
  | crash entry kept =>
      cases hw : s.service.walFile with
      | true => exact logShape_crash h hw ha
      | false => simpa [walStep, hw] using h
  | restart =>
      obtain ⟨tail, hwal, ht⟩ := h.wal
      refine ⟨h.snapshot, h.fits, tail, ?_, ht⟩
      simp [walStep, start, openWal, hwal]

/-- As long as no call comes to its end after a torn one, recovery returns
the completed entries first, and nothing else unless two crashes left bytes. -/
theorem completed_recovered (codec : EntryCodec) (events : List WalEvent)
    (ha : ∀ event ∈ events, Admissible codec event) (hq : Along (walStep codec) AppendsUntorn {} events) :
    Always (walStep codec) (KeepsCompleted codec) {} events := by
  have hinit : LogShape codec {} := ⟨rfl, by simp, [], rfl, fun _ => rfl, fun _ => rfl⟩
  have hshape : Always (walStep codec) (LogShape codec) {} events :=
    always_of_step hinit logShape_walStep (hq.and_forall ha)
  exact hshape.imp fun s hs => hs.keepsCompleted

/-- A crash that leaves the size and the checksum of a record. -/
def tornRun : List WalEvent :=
  [.append (plainEntry "agent-1" 100), .crash (plainEntry "agent-2" 200) 8, .restart]

theorem tornRun_admissible : ∀ event ∈ tornRun, Admissible entryCodec event := by
  have ha : Fits entryCodec (plainEntry "agent-1" 100) := fits_of_length (by decide)
  have hb : Fits entryCodec (plainEntry "agent-2" 200) := fits_of_length (by decide)
  simp only [tornRun, List.forall_mem_cons, List.not_mem_nil, false_imp_iff, implies_true, and_true]
  exact ⟨⟨ha, by decide⟩, ⟨hb, by decide, by decide +kernel⟩, trivial⟩

theorem completed_recovered_tornRun :
    Always (walStep entryCodec) (KeepsCompleted entryCodec) {} tornRun := by
  apply completed_recovered entryCodec tornRun tornRun_admissible
  exact along_cons.mpr ⟨fun _ => rfl, along_cons.mpr ⟨trivial, along_cons.mpr ⟨trivial, along_nil⟩⟩⟩

def appendAfterTear : List WalEvent := tornRun ++ [.append (plainEntry "agent-3" 300)]

theorem appendAfterTear_recover :
    (appendAfterTear.foldl (walStep entryCodec) {}).completed = [plainEntry "agent-1" 100, plainEntry "agent-3" 300] ∧
      recover entryCodec (appendAfterTear.foldl (walStep entryCodec) {}).service.disk =
        .ok [plainEntry "agent-1" 100] := by
  decide +kernel

/-- The torn header swallows the record that the reopened log appends. -/
theorem appendAfterTear_loses_entry :
    (∀ event ∈ appendAfterTear, Admissible entryCodec event) ∧
      ¬ ∃ entries, recover entryCodec (appendAfterTear.foldl (walStep entryCodec) {}).service.disk = .ok entries ∧
        (appendAfterTear.foldl (walStep entryCodec) {}).completed.Sublist entries := by
  obtain ⟨hc, hr⟩ := appendAfterTear_recover
  constructor
  · intro event he
    rcases List.mem_append.mp he with he | he
    · exact tornRun_admissible event he
    · rw [List.mem_singleton.mp he]
      exact ⟨fits_of_length (by decide), by decide⟩
  · rintro ⟨entries, he, hs⟩
    rw [hr, Except.ok.injEq] at he
    rw [hc, ← he] at hs
    have hl := hs.length_le
    simp at hl

/-- The entries of the longest start of the list whose records lie within the
first bytes of the log. -/
structure LongestWithin (codec : EntryCodec) (kept : Nat) (entries whole : List RegistryEntry) : Prop where
  start : whole <+: entries
  within : (whole.flatMap (entryBytes codec)).length ≤ kept
  longest : ∀ other, other <+: entries → (other.flatMap (entryBytes codec)).length ≤ kept → other <+: whole

def wholeRecords (codec : EntryCodec) : Nat → List RegistryEntry → List RegistryEntry
  | _, [] => []
  | kept, e :: es =>
      if (entryBytes codec e).length ≤ kept then e :: wholeRecords codec (kept - (entryBytes codec e).length) es
      else []

theorem longestWithin_wholeRecords (codec : EntryCodec) (kept : Nat) (entries : List RegistryEntry) :
    LongestWithin codec kept entries (wholeRecords codec kept entries) := by
  induction entries generalizing kept with
  | nil => exact ⟨List.prefix_rfl, Nat.zero_le _, fun _ ho _ => ho⟩
  | cons e es ih =>
      by_cases hle : (entryBytes codec e).length ≤ kept
      · have hih := ih (kept - (entryBytes codec e).length)
        have hwithin := hih.within
        rw [wholeRecords, if_pos hle]
        refine ⟨List.cons_prefix_cons.mpr ⟨rfl, hih.start⟩, ?_, ?_⟩
        · rw [List.flatMap_cons, List.length_append]
          omega
        · intro other ho hl
          cases other with
          | nil => exact List.nil_prefix
          | cons o os =>
              obtain ⟨rfl, hos⟩ := List.cons_prefix_cons.mp ho
              rw [List.flatMap_cons, List.length_append] at hl
              exact List.cons_prefix_cons.mpr ⟨rfl, hih.longest os hos (by omega)⟩
      · rw [wholeRecords, if_neg hle]
        refine ⟨List.nil_prefix, Nat.zero_le _, ?_⟩
        intro other ho hl
        cases other with
        | nil => exact List.prefix_rfl
        | cons o os =>
            obtain ⟨rfl, -⟩ := List.cons_prefix_cons.mp ho
            rw [List.flatMap_cons, List.length_append] at hl
            omega

theorem replay_take (after : UInt64) {entries : List RegistryEntry} (h : ∀ e ∈ entries, Fits codec e) (kept : Nat) :
    replay codec after ((entries.flatMap (entryBytes codec)).take kept) =
      (wholeRecords codec kept entries).filter (fun e => after < e.timestamp) := by
  induction entries generalizing kept with
  | nil =>
      rw [List.flatMap_nil, List.take_nil]
      rfl
  | cons e es ih =>
      have hfit := h e (by simp)
      rw [List.flatMap_cons, List.take_append]
      by_cases hle : (entryBytes codec e).length ≤ kept
      · rw [wholeRecords, if_pos hle, List.take_of_length_le hle, replay_entry hfit.readBack,
          ih (fun x hx => h x (by simp [hx])), ← List.filter_append, List.singleton_append]
      · -- the cut falls inside this record, and nothing follows it
        have hrest : kept - (entryBytes codec e).length = 0 := by omega
        rw [wholeRecords, if_neg hle, hrest, List.take_zero, List.append_nil, replay_torn hfit (by omega)]
        rfl

theorem foldl_appendEntry (codec : EntryCodec) (bytes : Bytes) (snapshot temporary : Option Bytes)
    (entries : List RegistryEntry) :
    entries.foldl (appendEntry codec) ⟨⟨some bytes, snapshot, temporary⟩, true⟩ =
      ⟨⟨some (bytes ++ entries.flatMap (entryBytes codec)), snapshot, temporary⟩, true⟩ := by
  induction entries generalizing bytes with
  | nil => simp
  | cons e es ih =>
      have happend : appendEntry codec ⟨⟨some bytes, snapshot, temporary⟩, true⟩ e =
          ⟨⟨some (bytes ++ entryBytes codec e), snapshot, temporary⟩, true⟩ := by
        simp [appendEntry, writeWal]
      rw [List.foldl_cons, happend, ih, List.flatMap_cons, List.append_assoc]

theorem foldl_appendEntry_start {disk : Disk} (hs : disk.snapshot = none) (hw : disk.wal.getD [] = [])
    (entries : List RegistryEntry) :
    (entries.foldl (appendEntry codec) (start disk)).disk =
      ⟨some (entries.flatMap (entryBytes codec)), none, disk.temporary⟩ := by
  have hopen : start disk = ⟨⟨some [], none, disk.temporary⟩, true⟩ := by simp [start, openWal, hw, hs]
  rw [hopen, foldl_appendEntry, List.nil_append]

theorem recover_log_only (codec : EntryCodec) (bytes : Bytes) (temporary : Option Bytes) :
    recover codec ⟨some bytes, none, temporary⟩ = .ok (replay codec 0 bytes) :=
  rfl

/-- The files as a crash or a copy leaves them that keeps the first bytes of
the log only. -/
def cutWal (kept : Nat) (disk : Disk) : Disk := { disk with wal := disk.wal.map (List.take kept) }

/-- Whatever byte the log is cut at, recovery returns the entries that were
written whole before it. -/
theorem recover_cutWal (codec : EntryCodec) (disk : Disk) (hs : disk.snapshot = none) (hw : disk.wal.getD [] = [])
    (entries : List RegistryEntry) (h : ∀ e ∈ entries, Fits codec e ∧ 1 ≤ e.timestamp) (kept : Nat) :
    ∃ whole, LongestWithin codec kept entries whole ∧
      recover codec (cutWal kept (entries.foldl (appendEntry codec) (start disk)).disk) = .ok whole := by
  have hlongest := longestWithin_wholeRecords codec kept entries
  refine ⟨wholeRecords codec kept entries, hlongest, ?_⟩
  have hkeep : (wholeRecords codec kept entries).filter (fun e => 0 < e.timestamp) =
      wholeRecords codec kept entries := by
    rw [List.filter_eq_self]
    intro e he
    have hpos : (0 : UInt64) < e.timestamp := lt_of_lt_of_le (by decide) (h e (hlongest.start.subset he)).2
    simpa using hpos
  have hreplay := replay_take 0 (fun e he => (h e he).1) kept
  rw [hkeep] at hreplay
  rw [foldl_appendEntry_start hs hw]
  exact congrArg Except.ok hreplay

theorem recover_cutWal_plain : ∃ whole,
    LongestWithin entryCodec 40 [plainEntry "agent-1" 100, plainEntry "agent-2" 200] whole ∧
      recover entryCodec (cutWal 40 ([plainEntry "agent-1" 100, plainEntry "agent-2" 200].foldl
        (appendEntry entryCodec) (start {})).disk) = .ok whole := by
  apply recover_cutWal entryCodec {} rfl rfl
  simp only [List.forall_mem_cons, List.not_mem_nil, false_imp_iff, implies_true, and_true]
  exact ⟨⟨fits_of_length (by decide), by decide⟩, fits_of_length (by decide), by decide⟩

end BeaconNode.WalDurability
