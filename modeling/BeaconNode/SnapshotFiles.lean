import BeaconNode.EntryWire

namespace BeaconNode.SnapshotFiles

open Words TextStream Persistence WalReplay EntryWire

variable {codec : EntryCodec} {entries : List RegistryEntry}

theorem walEntries_getD (codec : EntryMessage) (after : UInt64) (wal : Option Bytes) :
    walEntries codec after (some (wal.getD [])) = walEntries codec after wal := by
  cases wal with
  | none => rfl
  | some bytes => rfl

theorem recover_openWal (codec : EntryMessage) (opens : Bool) (disk : Disk) :
    recover codec (openWal opens disk).disk = recover codec disk := by
  cases opens with
  | false => rfl
  | true => simp only [recover, openWal, if_true, walEntries_getD]

theorem recover_empty_wal (codec : EntryMessage) (snapshot temporary : Option Bytes) :
    recover codec ⟨some [], snapshot, temporary⟩ = snapshotEntries codec snapshot := by
  have hwal (after : UInt64) : walEntries codec after (some []) = [] := rfl
  simp only [recover, hwal, List.append_nil]
  exact bind_pure _

def Writable (codec : EntryCodec) (entry : RegistryEntry) : Prop :=
  ∃ serialized, codec.serialize entry = some serialized ∧ serialized.length < 2 ^ 32

theorem entryBytes_ne_nil {entry : RegistryEntry} (h : Writable codec entry) : entryBytes codec entry ≠ [] := by
  obtain ⟨serialized, hs, -⟩ := h
  simp [entryBytes, hs, recordBytes, leBytes]

theorem size_oversized {n : Nat} (h : n < 2 ^ 32) (hn : ¬ n ≤ maxEntrySize.toNat) : maxEntrySize < UInt32.ofNat n := by
  rw [UInt32.lt_iff_toNat_lt, UInt32.toNat_ofNat', Nat.mod_eq_of_lt h]
  exact not_le.mp hn

theorem readSnapshot_oversized {count : Nat} (hw : ∀ e ∈ entries, Writable codec e)
    (hbig : ∃ e ∈ entries.take count, ¬ Fits codec e) :
    ∃ error, readSnapshot codec count (entries.flatMap (entryBytes codec)) = .error error := by
  induction entries generalizing count with
  | nil => simp at hbig
  | cons e es ih =>
      cases count with
      | zero => simp at hbig
      | succ count =>
          obtain ⟨serialized, hs, hlt⟩ := hw e (by simp)
          by_cases hl : serialized.length ≤ maxEntrySize.toNat
          · have hfits : Fits codec e := ⟨serialized, hs, hl⟩
            have hrest : ∃ f ∈ es.take count, ¬ Fits codec f := by
              obtain ⟨f, hf, hnot⟩ := hbig
              rcases List.mem_cons.mp hf with rfl | hf
              · exact absurd hfits hnot
              · exact ⟨f, hf, hnot⟩
            obtain ⟨error, herror⟩ := ih (fun f hf => hw f (by simp [hf])) hrest
            refine ⟨error, ?_⟩
            rw [List.flatMap_cons, entryBytes_eq hs hlt, List.append_assoc, List.append_assoc,
              readSnapshot_record hl, herror]
            rfl
          · refine ⟨.entryTooLarge (UInt32.ofNat serialized.length), ?_⟩
            rw [List.flatMap_cons, entryBytes_eq hs hlt, List.append_assoc]
            simp only [readSnapshot, readWord_leBytes, size_oversized hlt hl, if_true]

theorem readSnapshot_leaves {count : Nat} (hw : ∀ e ∈ entries, Writable codec e) (hlt : count < entries.length)
    (hfits : ∀ e ∈ entries.take count, Fits codec e) :
    ∃ rest, rest ≠ [] ∧
      readSnapshot codec count (entries.flatMap (entryBytes codec)) = .ok (entries.take count, rest) := by
  refine ⟨(entries.drop count).flatMap (entryBytes codec), ?_, ?_⟩
  · have hne : entries.drop count ≠ [] := by
      rw [ne_eq, List.drop_eq_nil_iff]
      omega
    obtain ⟨e, es, hdrop⟩ := List.exists_cons_of_ne_nil hne
    have he : e ∈ entries := List.mem_of_mem_drop (hdrop ▸ List.mem_cons_self)
    rw [hdrop, List.flatMap_cons]
    exact List.append_ne_nil_of_left_ne_nil (entryBytes_ne_nil (hw e he)) _
  · have hread :=
      readSnapshot_entries (fun e he => (hfits e he).readBack) ((entries.drop count).flatMap (entryBytes codec))
    rw [List.length_take, min_eq_left hlt.le, ← List.flatMap_append, List.take_append_drop] at hread
    exact hread

theorem recoverSnapshot_refused (hw : ∀ e ∈ entries, Writable codec e)
    (h : ¬ (entries.length ≤ maxSnapshotRecords.toNat ∧ ∀ e ∈ entries, Fits codec e)) :
    ∃ error, recoverSnapshot codec (snapshotBytes codec entries) = .error error := by
  simp only [recoverSnapshot, snapshotBytes, readHeader, readWord_leBytes]
  by_cases htotal : maxSnapshotRecords < UInt32.ofNat entries.length
  · exact ⟨_, if_pos htotal⟩
  · simp only [htotal, if_false]
    by_cases hbig : ∃ e ∈ entries.take (UInt32.ofNat entries.length).toNat, ¬ Fits codec e
    · obtain ⟨error, herror⟩ := readSnapshot_oversized hw hbig
      exact ⟨error, by rw [herror]; rfl⟩
    · -- all that the header counts fits, so the header counts too few
      have hfits : ∀ e ∈ entries.take (UInt32.ofNat entries.length).toNat, Fits codec e := by
        simpa using hbig
      have hle : (UInt32.ofNat entries.length).toNat ≤ entries.length := by
        rw [UInt32.toNat_ofNat']
        exact Nat.mod_le _ _
      have hlt : (UInt32.ofNat entries.length).toNat < entries.length := by
        apply lt_of_le_of_ne hle
        intro heq
        apply h
        rw [UInt32.lt_iff_toNat_lt, heq] at htotal
        rw [heq, List.take_length] at hfits
        exact ⟨not_lt.mp htotal, hfits⟩
      obtain ⟨rest, hrest, hread⟩ := readSnapshot_leaves hw hlt hfits
      refine ⟨.trailingBytes, ?_⟩
      rw [hread]
      exact if_pos hrest

theorem recover_createSnapshot (codec : EntryMessage) (service : PersistenceService) (entries : List RegistryEntry) :
    recover codec (createSnapshot codec {} service entries).disk =
      recoverSnapshot codec (snapshotBytes codec entries) := by
  simp only [createSnapshot, if_true]
  rw [recover_openWal, recover_empty_wal]
  rfl

/-- A snapshot is read back as it was written when it has no more entries and
no larger ones than the reader accepts, and is refused otherwise. -/
theorem snapshot_read_back (codec : EntryCodec) (service : PersistenceService) (entries : List RegistryEntry)
    (hw : ∀ e ∈ entries, Writable codec e) :
    (entries.length ≤ 1000000 ∧ (∀ e ∈ entries, Fits codec e) →
      recover codec (createSnapshot codec {} service entries).disk = .ok entries) ∧
    (¬ (entries.length ≤ 1000000 ∧ ∀ e ∈ entries, Fits codec e) →
      ∃ error, recover codec (createSnapshot codec {} service entries).disk = .error error) := by
  have hm : maxSnapshotRecords.toNat = 1000000 := rfl
  rw [recover_createSnapshot, ← hm]
  constructor
  · rintro ⟨hlength, hfits⟩
    exact recoverSnapshot_snapshotBytes (fun e he => (hfits e he).readBack) hlength
  · intro h
    exact recoverSnapshot_refused hw h

theorem plainEntry_fits : Fits entryCodec (plainEntry "agent-1" 1) := fits_of_length (by decide)

theorem writable_of_fits {entry : RegistryEntry} (h : Fits codec entry) : Writable codec entry := by
  obtain ⟨serialized, hs, hl⟩ := h
  exact ⟨serialized, hs, lt_of_le_maxEntrySize hl⟩

def sampleEntries : List RegistryEntry := [plainEntry "agent-1" 5, plainEntry "agent-2" 3, plainEntry "agent-1" 4]

theorem sampleEntries_fit : ∀ e ∈ sampleEntries, Fits entryCodec e := by
  simp only [sampleEntries, List.forall_mem_cons]
  exact ⟨fits_of_length (by decide), fits_of_length (by decide), fits_of_length (by decide), nofun⟩

theorem snapshot_read_back_sampleEntries :
    (∀ e ∈ sampleEntries, Writable entryCodec e) ∧
      recover entryCodec (createSnapshot entryCodec {} (start {}) sampleEntries).disk = .ok sampleEntries := by
  have hw : ∀ e ∈ sampleEntries, Writable entryCodec e := fun e he => writable_of_fits (sampleEntries_fit e he)
  exact ⟨hw, (snapshot_read_back entryCodec (start {}) sampleEntries hw).1 ⟨by decide, sampleEntries_fit⟩⟩

def tooManyEntries : List RegistryEntry := List.replicate 1000001 (plainEntry "agent-1" 1)

theorem snapshot_not_read_back :
    (∀ e ∈ tooManyEntries, Writable entryCodec e) ∧
      ∃ error, recover entryCodec (createSnapshot entryCodec {} (start {}) tooManyEntries).disk = .error error := by
  have hlength : tooManyEntries.length = 1000001 := List.length_replicate
  have hw : ∀ e ∈ tooManyEntries, Writable entryCodec e := by
    intro e he
    rw [List.eq_of_mem_replicate he]
    exact writable_of_fits plainEntry_fits
  refine ⟨hw, ?_⟩
  rw [recover_createSnapshot]
  apply recoverSnapshot_refused hw
  rw [hlength]
  exact fun hboth => absurd hboth.1 (by decide)

end BeaconNode.SnapshotFiles
