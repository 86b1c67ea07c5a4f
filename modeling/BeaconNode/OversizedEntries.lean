import BeaconNode.ReplayLoop

namespace BeaconNode.OversizedEntries

open Words TextStream Persistence WalReplay WalDurability EntryWire SnapshotFiles ReplayLoop

def withinLimit (codec : EntryMessage) (entry : RegistryEntry) : Bool :=
  (codec.serialize entry).any (fun serialized => serialized.length ≤ maxEntrySize.toNat)

/-- A payload over the limit is not skipped but read as if records stood in
it. No harm is done where it is a row of records, all of whose intact ones were
appended. -/
def OversizedReadThrough (codec : EntryMessage) (entries : List RegistryEntry) : Prop :=
  ∀ e ∈ entries, ∀ serialized, codec.serialize e = some serialized → maxEntrySize.toNat < serialized.length →
    ∃ found, Scans codec serialized found [] ∧ ∀ f ∈ found, 1 ≤ f.timestamp → f ∈ entries

variable {codec : EntryCodec} {after : UInt64} {bytes : Bytes} {found entries : List RegistryEntry}
  {entry : RegistryEntry}

theorem withinLimit_iff : withinLimit codec entry = true ↔ Fits codec entry := by
  simp [withinLimit, Fits, Option.any_eq_true]

/-- After the header of an oversized entry the loop goes on at its payload. -/
theorem replay_oversized_entry {serialized : Bytes} (hs : codec.serialize entry = some serialized)
    (hlt : serialized.length < 2 ^ 32) (hbig : maxEntrySize.toNat < serialized.length) (rest : Bytes) :
    replay codec after (entryBytes codec entry ++ rest) = replay codec after (serialized ++ rest) := by
  have hmax := size_oversized hlt (not_le.mpr hbig)
  rw [entryBytes_eq hs hlt, List.append_assoc, List.append_assoc]
  exact replay_oversized (readWord_leBytes _ _) (readWord_leBytes _ _) hmax

theorem replay_appended (hw : Writable codec entry) (ht : 1 ≤ entry.timestamp)
    (hread : ∀ serialized, codec.serialize entry = some serialized → maxEntrySize.toNat < serialized.length →
      ∃ found, Scans codec serialized found [] ∧ ∀ f ∈ found, 1 ≤ f.timestamp → f ∈ entries) (hmem : entry ∈ entries) :
    ∃ found, (∀ rest, replay codec 0 (entryBytes codec entry ++ rest) = found ++ replay codec 0 rest) ∧
      ([entry].filter (withinLimit codec)).Sublist found ∧ ∀ f ∈ found, f ∈ entries := by
  obtain ⟨serialized, hs, hlt⟩ := hw
  by_cases hbig : maxEntrySize.toNat < serialized.length
  · obtain ⟨found, hfound, hmem⟩ := hread serialized hs hbig
    refine ⟨found.filter (fun e => 0 < e.timestamp), fun rest => ?_, ?_, fun f hf => ?_⟩
    · rw [replay_oversized_entry hs hlt hbig, hfound.replay_append, List.nil_append]
    · have hnot : withinLimit codec entry = false := by simp [withinLimit, hs, hbig]
      simp [hnot]
    · obtain ⟨hf, hpos⟩ := List.mem_filter.mp hf
      exact hmem f hf (UInt64.lt_iff_toNat_lt.mp (of_decide_eq_true hpos))
  · have hfits : Fits codec entry := ⟨serialized, hs, not_lt.mp hbig⟩
    have hpos : (0 : UInt64) < entry.timestamp := lt_of_lt_of_le (by decide) ht
    refine ⟨[entry], fun rest => ?_, List.filter_sublist, by simpa using hmem⟩
    rw [replay_entry hfits.readBack]
    simp [hpos]

theorem replay_all_appended {all : List RegistryEntry} (hw : ∀ e ∈ entries, Writable codec e ∧ 1 ≤ e.timestamp)
    (hread : ∀ e ∈ entries, ∀ serialized, codec.serialize e = some serialized →
      maxEntrySize.toNat < serialized.length →
        ∃ found, Scans codec serialized found [] ∧ ∀ f ∈ found, 1 ≤ f.timestamp → f ∈ all)
    (hall : ∀ e ∈ entries, e ∈ all) :
    (entries.filter (withinLimit codec)).Sublist (replay codec 0 (entries.flatMap (entryBytes codec))) ∧
      ∀ f ∈ replay codec 0 (entries.flatMap (entryBytes codec)), f ∈ all := by
  induction entries with
  | nil => exact ⟨List.nil_sublist _, by simp [replay, replayTurns]⟩
  | cons e es ih =>
      obtain ⟨hsub, hmem⟩ := ih (fun x hx => hw x (by simp [hx])) (fun x hx => hread x (by simp [hx]))
        (fun x hx => hall x (by simp [hx]))
      obtain ⟨found, hreplay, hkept, hfound⟩ :=
        replay_appended (hw e (by simp)).1 (hw e (by simp)).2 (hread e (by simp)) (hall e (by simp))
      rw [List.flatMap_cons, hreplay, ← List.singleton_append, List.filter_append]
      refine ⟨hkept.append hsub, fun f hf => ?_⟩
      rcases List.mem_append.mp hf with hf | hf
      · exact hfound f hf
      · exact hmem f hf

/-- The loop does not skip the payload of an entry over the limit. Where each
such payload reads through, the other entries all come back. -/
theorem oversized_entries_harmless (codec : EntryCodec) (disk : Disk) (hs : disk.snapshot = none)
    (hempty : disk.wal.getD [] = []) (entries : List RegistryEntry)
    (hw : ∀ e ∈ entries, Writable codec e ∧ 1 ≤ e.timestamp) (hread : OversizedReadThrough codec entries) :
    ∃ recovered, recover codec (entries.foldl (appendEntry codec) (start disk)).disk = .ok recovered ∧
      (entries.filter (withinLimit codec)).Sublist recovered ∧ ∀ e ∈ recovered, e ∈ entries := by
  obtain ⟨hsub, hmem⟩ := replay_all_appended hw hread (fun e he => he)
  refine ⟨replay codec 0 (entries.flatMap (entryBytes codec)), ?_, hsub, hmem⟩
  rw [foldl_appendEntry_start hs hempty, recover_log_only]

def headerKey (size checksum : UInt32) (filler : Bytes) : Bytes := 0 :: (leBytes size ++ (leBytes checksum ++ filler))

def keyEntry (size checksum : UInt32) (filler : Bytes) : RegistryEntry :=
  { timestamp := 1, publicKey := headerKey size checksum filler }

def shortEntry : RegistryEntry := { agentId := ascii "a", timestamp := 1 }

theorem shortEntry_fits : Fits entryCodec shortEntry := fits_of_length (by decide)

section

variable {size checksum : UInt32} {filler : Bytes}

theorem fieldBytes_keyEntry (h : filler.length = 10485745) :
    fieldBytes (keyEntry size checksum filler) =
      leBytes (leWord 32 1 42 250) ++ (leBytes (leWord 255 255 4 0) ++
        (leBytes size ++ (leBytes checksum ++ filler))) := by
  have hlength : (headerKey size checksum filler).length = 10485754 := by simp [headerKey, h]
  have hne : headerKey size checksum filler ≠ [] := by simp [headerKey]
  have hsize : varint 10 10485754 = [250, 255, 255, 4] := by decide
  have htime : timestampField 1 = [32, 1] := by decide
  have hfirst : leBytes (leWord 32 1 42 250) = [32, 1, 42, 250] := by decide
  have hsecond : leBytes (leWord 255 255 4 0) = [255, 255, 4, 0] := by decide
  simp only [fieldBytes, keyEntry, bytesField, htime, hne, hlength, hsize, hfirst, hsecond, if_false, if_true,
    List.nil_append, List.append_nil]
  rfl

theorem serialize_keyEntry (h : filler.length = 10485745) :
    entryCodec.serialize (keyEntry size checksum filler) = some (fieldBytes (keyEntry size checksum filler)) ∧
      (fieldBytes (keyEntry size checksum filler)).length = 10485761 := by
  have hlength : (fieldBytes (keyEntry size checksum filler)).length = 10485761 := by
    rw [fieldBytes_keyEntry h]
    simp [h]
  refine ⟨?_, hlength⟩
  simp only [entryCodec, serializeEntry]
  rw [if_pos (by omega)]

theorem keyEntry_not_withinLimit (h : filler.length = 10485745) :
    withinLimit entryCodec (keyEntry size checksum filler) = false := by
  have hm : maxEntrySize.toNat = 10485760 := rfl
  simp [withinLimit, serialize_keyEntry h, hm]

theorem keyEntry_appended (h : filler.length = 10485745) :
    ∀ e ∈ [keyEntry size checksum filler, shortEntry], Writable entryCodec e ∧ 1 ≤ e.timestamp := by
  obtain ⟨hs, hlength⟩ := @serialize_keyEntry size checksum filler h
  intro e he
  simp only [List.mem_cons, List.not_mem_nil, or_false] at he
  rcases he with rfl | rfl
  · exact ⟨⟨_, hs, by omega⟩, le_rfl⟩
  · exact ⟨writable_of_fits shortEntry_fits, le_rfl⟩

/-- The first header stands in the tags of the entry, the second in its key.
The second announces the rest of the key, which has another checksum. -/
theorem scans_keyEntry (h : filler.length = 10485745) (hc : computeCrc32 filler ≠ checksum) :
    Scans entryCodec (fieldBytes (keyEntry (UInt32.ofNat filler.length) checksum filler)) [] [] := by
  have hm : maxEntrySize.toNat = 10485760 := rfl
  have hscan : Scans entryCodec (leBytes (UInt32.ofNat filler.length) ++ (leBytes checksum ++ (filler ++ [])))
      ((checkedEntry entryCodec checksum filler).toList ++ []) [] := .record checksum (by omega) (.done [])
  rw [checkedEntry, if_pos hc, List.append_nil] at hscan
  rw [fieldBytes_keyEntry h]
  exact .oversized _ (by decide) hscan

end

def zeroFiller : Bytes := List.replicate 10485745 0

theorem zeroFiller_length : zeroFiller.length = 10485745 := List.length_replicate

/-- An entry over the limit whose payload reads through, and a short one behind
it. -/
theorem oversized_entries_harmless_readThrough :
    ∃ checksum, withinLimit entryCodec (keyEntry 10485745 checksum zeroFiller) = false ∧
      ∃ recovered, recover entryCodec ([keyEntry 10485745 checksum zeroFiller, shortEntry].foldl
          (appendEntry entryCodec) (start {})).disk = .ok recovered ∧
        ([keyEntry 10485745 checksum zeroFiller, shortEntry].filter (withinLimit entryCodec)).Sublist recovered ∧
          ∀ e ∈ recovered, e ∈ [keyEntry 10485745 checksum zeroFiller, shortEntry] := by
  have hsize : UInt32.ofNat zeroFiller.length = 10485745 := congrArg UInt32.ofNat zeroFiller_length
  have hother : ∃ checksum : UInt32, computeCrc32 zeroFiller ≠ checksum := by
    by_cases hzero : computeCrc32 zeroFiller = 0
    · exact ⟨1, hzero.trans_ne (by decide)⟩
    · exact ⟨0, hzero⟩
  obtain ⟨checksum, hchecksum⟩ := hother
  have hscan := scans_keyEntry zeroFiller_length hchecksum
  rw [hsize] at hscan
  refine ⟨checksum, keyEntry_not_withinLimit zeroFiller_length, ?_⟩
  apply oversized_entries_harmless entryCodec {} rfl rfl _ (keyEntry_appended zeroFiller_length)
  intro e he serialized hs hbig
  simp only [List.mem_cons, List.not_mem_nil, or_false] at he
  rcases he with rfl | rfl
  · rw [(serialize_keyEntry zeroFiller_length).1] at hs
    obtain rfl := Option.some.inj hs
    exact ⟨[], hscan, nofun⟩
  · obtain ⟨other, ho, hle⟩ := shortEntry_fits
    obtain rfl := Option.some.inj (hs.symm.trans ho)
    exact absurd hbig (not_lt.mpr hle)

theorem replay_keyEntry {filler rest : Bytes} (h : filler.length = 10485745) (hrest : rest.length < 15) :
    replay entryCodec 0 (entryBytes entryCodec (keyEntry maxEntrySize 0 filler) ++ rest) = [] := by
  obtain ⟨hs, hlength⟩ := @serialize_keyEntry maxEntrySize 0 filler h
  have hm : maxEntrySize.toNat = 10485760 := rfl
  have hfirst : maxEntrySize < leWord 32 1 42 250 := by decide
  rw [replay_oversized_entry hs (by omega) (by omega), fieldBytes_keyEntry h, List.append_assoc, List.append_assoc,
    replay_oversized (readWord_leBytes _ _) (readWord_leBytes _ _) hfirst, List.append_assoc, List.append_assoc]
  apply replay_no_payload (readWord_leBytes _ _) (readWord_leBytes _ _)
  · decide
  · apply readBytes_short
    rw [List.length_append]
    omega

/-- The short entry is lost behind such an entry. -/
theorem oversized_entry_swallows_next :
    (∀ e ∈ [keyEntry maxEntrySize 0 zeroFiller, shortEntry], Writable entryCodec e ∧ 1 ≤ e.timestamp) ∧
      withinLimit entryCodec shortEntry = true ∧
      recover entryCodec
        ([keyEntry maxEntrySize 0 zeroFiller, shortEntry].foldl (appendEntry entryCodec) (start {})).disk = .ok [] := by
  have hnext : (entryBytes entryCodec shortEntry).length < 15 := by decide
  have hbytes : [keyEntry maxEntrySize 0 zeroFiller, shortEntry].flatMap (entryBytes entryCodec) =
      entryBytes entryCodec (keyEntry maxEntrySize 0 zeroFiller) ++ entryBytes entryCodec shortEntry := by
    rw [List.flatMap_cons, List.flatMap_singleton]
  refine ⟨keyEntry_appended zeroFiller_length, withinLimit_iff.mpr shortEntry_fits, ?_⟩
  rw [foldl_appendEntry_start rfl rfl, recover_log_only, hbytes, replay_keyEntry zeroFiller_length hnext]

end BeaconNode.OversizedEntries
