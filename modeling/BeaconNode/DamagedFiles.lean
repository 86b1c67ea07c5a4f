import BeaconNode.SnapshotFiles
import BeaconNode.WalDurability

namespace BeaconNode.DamagedFiles

open Words TextStream Persistence WalReplay WalDurability EntryWire SnapshotFiles

abbrev Marked := List (RegistryEntry × Option Bytes)

def entriesOf (marked : Marked) : List RegistryEntry := marked.map Prod.fst

def untouched (marked : Marked) : List RegistryEntry := (marked.filter (fun m => m.2.isNone)).map Prod.fst

def payloadSize (codec : EntryCodec) (entry : RegistryEntry) : Nat := ((codec.serialize entry).getD []).length

/-- Write over the payloads of a row of records and leave every header. -/
def overwrite (codec : EntryCodec) : Marked → Bytes → Bytes
  | [], file => file
  | (entry, damage) :: marked, file =>
      let records := file.drop 8
      let size := payloadSize codec entry
      file.take 8 ++ (damage.getD (records.take size) ++ overwrite codec marked (records.drop size))

def overwriteWal (codec : EntryCodec) (marked : Marked) (disk : Disk) : Disk :=
  { disk with wal := disk.wal.map (overwrite codec marked) }

def overwriteSnapshot (codec : EntryCodec) (marked : Marked) (disk : Disk) : Disk :=
  { disk with snapshot := disk.snapshot.map (fun file => file.take 4 ++ overwrite codec marked (file.drop 4)) }

/-- The bytes are as many as the payload has, and have another checksum. -/
def Damages (codec : EntryCodec) (entry : RegistryEntry) (bytes : Bytes) : Prop :=
  ∀ serialized, codec.serialize entry = some serialized →
    bytes.length = serialized.length ∧ computeCrc32 bytes ≠ computeCrc32 serialized

structure Admissible (codec : EntryCodec) (marked : Marked) : Prop where
  fits : ∀ m ∈ marked, Fits codec m.1
  stamped : ∀ m ∈ marked, 1 ≤ m.1.timestamp
  damaged : ∀ m ∈ marked, ∀ bytes ∈ m.2, Damages codec m.1 bytes

variable {codec : EntryCodec} {after : UInt64} {marked : Marked} {entry : RegistryEntry} {damage : Option Bytes}
  {serialized : Bytes}

theorem Admissible.tail (h : Admissible codec ((entry, damage) :: marked)) : Admissible codec marked where
  fits := fun m hm => h.fits m (List.mem_cons_of_mem _ hm)
  stamped := fun m hm => h.stamped m (List.mem_cons_of_mem _ hm)
  damaged := fun m hm => h.damaged m (List.mem_cons_of_mem _ hm)

theorem overwrite_cons (hs : codec.serialize entry = some serialized) (hlt : serialized.length < 2 ^ 32)
    (file : Bytes) :
    overwrite codec ((entry, damage) :: marked) (entryBytes codec entry ++ file) =
      leBytes (UInt32.ofNat serialized.length) ++ (leBytes (computeCrc32 serialized) ++
        (damage.getD serialized ++ overwrite codec marked file)) := by
  have hsize : payloadSize codec entry = serialized.length := by simp [payloadSize, hs]
  have hbytes : entryBytes codec entry ++ file =
      (leBytes (UInt32.ofNat serialized.length) ++ leBytes (computeCrc32 serialized)) ++ (serialized ++ file) := by
    rw [entryBytes_eq hs hlt]
    simp only [List.append_assoc]
  have hheader : (leBytes (UInt32.ofNat serialized.length) ++ leBytes (computeCrc32 serialized)).length = 8 := rfl
  rw [overwrite, hbytes, ← hheader, List.take_left, List.drop_left, hsize, List.take_left, List.drop_left,
    List.append_assoc]

/-- The checksum of the header lets a payload through that is as it was
written, and no other. -/
theorem checkedEntry_getD (hs : codec.serialize entry = some serialized)
    (hd : ∀ bytes ∈ damage, Damages codec entry bytes) :
    checkedEntry codec (computeCrc32 serialized) (damage.getD serialized) =
      if damage.isNone then some entry else none := by
  cases damage with
  | none => exact checkedEntry_serialized (codec.parse_serialize entry serialized hs)
  | some bytes =>
      have hne := (hd bytes rfl serialized hs).2
      simp [checkedEntry, hne]

theorem length_getD (hs : codec.serialize entry = some serialized)
    (hd : ∀ bytes ∈ damage, Damages codec entry bytes) : (damage.getD serialized).length = serialized.length := by
  cases damage with
  | none => rfl
  | some bytes => exact (hd bytes rfl serialized hs).1

theorem entriesOf_cons : entriesOf ((entry, damage) :: marked) = entry :: entriesOf marked := rfl

theorem untouched_cons :
    untouched ((entry, damage) :: marked) = (if damage.isNone then [entry] else []) ++ untouched marked := by
  cases damage with
  | none => rfl
  | some bytes => rfl

/-- What the loops find of the first record: a payload of the length that its
header says, which gives the entry if nothing was written over it. -/
theorem overwrite_record (h : Admissible codec ((entry, damage) :: marked)) (file : Bytes) :
    ∃ checksum buffer, buffer.length ≤ maxEntrySize.toNat ∧
      overwrite codec ((entry, damage) :: marked) (entryBytes codec entry ++ file) =
        leBytes (UInt32.ofNat buffer.length) ++ (leBytes checksum ++ (buffer ++ overwrite codec marked file)) ∧
      checkedEntry codec checksum buffer = if damage.isNone then some entry else none := by
  obtain ⟨serialized, hs, hl⟩ := h.fits (entry, damage) List.mem_cons_self
  have hd := h.damaged (entry, damage) List.mem_cons_self
  have hlength := length_getD hs hd
  refine ⟨computeCrc32 serialized, damage.getD serialized, hlength ▸ hl, ?_, checkedEntry_getD hs hd⟩
  rw [overwrite_cons hs (lt_of_le_maxEntrySize hl), hlength]

theorem replay_overwrite (h : Admissible codec marked) :
    replay codec 0 (overwrite codec marked ((entriesOf marked).flatMap (entryBytes codec))) = untouched marked := by
  induction marked with
  | nil => rfl
  | cons m marked ih =>
      obtain ⟨entry, damage⟩ := m
      have hpos : (0 : UInt64) < entry.timestamp :=
        lt_of_lt_of_le (by decide) (h.stamped (entry, damage) List.mem_cons_self)
      obtain ⟨checksum, buffer, hl, hbytes, hchecked⟩ :=
        overwrite_record h ((entriesOf marked).flatMap (entryBytes codec))
      rw [entriesOf_cons, List.flatMap_cons, hbytes, replay_record hl, hchecked, untouched_cons, ih h.tail]
      congr 1
      cases damage with
      | none => simp [Option.filter_some_pos, hpos]
      | some bytes => rfl

theorem readSnapshot_overwrite (h : Admissible codec marked) :
    readSnapshot codec marked.length (overwrite codec marked ((entriesOf marked).flatMap (entryBytes codec))) =
      .ok (untouched marked, []) := by
  induction marked with
  | nil => rfl
  | cons m marked ih =>
      obtain ⟨entry, damage⟩ := m
      obtain ⟨checksum, buffer, hl, hbytes, hchecked⟩ :=
        overwrite_record h ((entriesOf marked).flatMap (entryBytes codec))
      rw [entriesOf_cons, List.flatMap_cons, hbytes, List.length_cons, readSnapshot_record hl, hchecked, ih h.tail,
        untouched_cons]
      cases damage with
      | none => rfl
      | some bytes => rfl

theorem recover_overwriteWal {disk : Disk} (hs : disk.snapshot = none) (hempty : disk.wal.getD [] = [])
    (h : Admissible codec marked) :
    recover codec (overwriteWal codec marked ((entriesOf marked).foldl (appendEntry codec) (start disk)).disk) =
      .ok (untouched marked) := by
  rw [foldl_appendEntry_start hs hempty]
  simp only [overwriteWal, Option.map_some]
  rw [recover_log_only, replay_overwrite h]

theorem recover_overwriteSnapshot (service : PersistenceService) (h : Admissible codec marked)
    (hlength : marked.length ≤ 1000000) :
    recover codec (overwriteSnapshot codec marked (createSnapshot codec {} service (entriesOf marked)).disk) =
      .ok (untouched marked) := by
  have hfile : (snapshotBytes codec (entriesOf marked)).take 4 ++
      overwrite codec marked ((snapshotBytes codec (entriesOf marked)).drop 4) =
        leBytes (UInt32.ofNat marked.length) ++
          overwrite codec marked ((entriesOf marked).flatMap (entryBytes codec)) := by
    have hlength : (entriesOf marked).length = marked.length := List.length_map _
    rw [snapshotBytes, hlength, ← leBytes_length (UInt32.ofNat marked.length), List.take_left, List.drop_left]
  simp only [createSnapshot, if_true, openWal, overwriteSnapshot, Option.map_some, Option.getD_some, hfile]
  rw [recover_empty_wal]
  exact recoverSnapshot_counted hlength (readSnapshot_overwrite h)

/-- Damage to payloads stays where it is: recovery steps over each damaged
record, of the log and of a snapshot, and returns all the others. -/
theorem damage_confined (codec : EntryCodec) (disk : Disk) (hs : disk.snapshot = none)
    (hempty : disk.wal.getD [] = []) (service : PersistenceService) (marked : Marked) (h : Admissible codec marked) :
    recover codec (overwriteWal codec marked ((entriesOf marked).foldl (appendEntry codec) (start disk)).disk) =
      .ok (untouched marked) ∧
    (marked.length ≤ 1000000 →
      recover codec (overwriteSnapshot codec marked (createSnapshot codec {} service (entriesOf marked)).disk) =
        .ok (untouched marked)) :=
  ⟨recover_overwriteWal hs hempty h, recover_overwriteSnapshot service h⟩

def zeroedFirst : Marked :=
  [(plainEntry "a" 1, some (List.replicate 13 0)), (plainEntry "b" 2, none)]

theorem damage_confined_zeroedFirst :
    recover entryCodec (overwriteWal entryCodec zeroedFirst
        ((entriesOf zeroedFirst).foldl (appendEntry entryCodec) (start {})).disk) = .ok [plainEntry "b" 2] ∧
      recover entryCodec (overwriteSnapshot entryCodec zeroedFirst
        (createSnapshot entryCodec {} (start {}) (entriesOf zeroedFirst)).disk) = .ok [plainEntry "b" 2] := by
  have hbytes : entryCodec.serialize (plainEntry "a" 1) = some (fieldBytes (plainEntry "a" 1)) := by decide
  have hdamages : Damages entryCodec (plainEntry "a" 1) (List.replicate 13 0) := by
    intro serialized hs
    rw [hbytes, Option.some.injEq] at hs
    subst hs
    decide +kernel
  have hadmissible : Admissible entryCodec zeroedFirst := by
    refine ⟨?_, ?_, ?_⟩
    · simpa [zeroedFirst] using ⟨fits_of_length (by decide), fits_of_length (by decide)⟩
    · simp [zeroedFirst, plainEntry]
    · simpa [zeroedFirst] using hdamages
  obtain ⟨hwal, hsnapshot⟩ := damage_confined entryCodec {} rfl rfl (start {}) zeroedFirst hadmissible
  exact ⟨hwal, hsnapshot (by simp [zeroedFirst])⟩

end BeaconNode.DamagedFiles
