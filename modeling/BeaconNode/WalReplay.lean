import BeaconNode.Persistence

namespace BeaconNode.WalReplay

open Words TextStream Persistence

variable {codec : EntryMessage} {after : UInt64} {bytes rest : Bytes}

theorem readBytes_append (buffer rest : Bytes) : readBytes buffer.length (buffer ++ rest) = some (buffer, rest) := by
  simp [readBytes]

theorem readBytes_short {size : Nat} (h : bytes.length < size) : readBytes size bytes = none := by
  simp [readBytes, h]

theorem eq_of_readBytes {size : Nat} {buffer : Bytes} (h : readBytes size bytes = some (buffer, rest)) :
    bytes = buffer ++ rest ∧ buffer.length = size := by
  simp only [readBytes] at h
  split at h
  next hle =>
    obtain ⟨rfl, rfl⟩ := Prod.mk.inj (Option.some.inj h)
    exact ⟨(List.take_append_drop size bytes).symm, List.length_take_of_le hle⟩
  next => cases h

theorem readBytes_length {size : Nat} {buffer : Bytes} (h : readBytes size bytes = some (buffer, rest)) :
    rest.length ≤ bytes.length := by
  rw [(eq_of_readBytes h).1, List.length_append]
  exact Nat.le_add_left _ _

theorem replayTurns_nil (turns : Nat) : replayTurns codec after turns [] = [] := by
  cases turns with
  | zero => rfl
  | succ turns => rfl

theorem replayTurns_enough {n m : Nat} (hn : bytes.length ≤ n) (hm : bytes.length ≤ m) :
    replayTurns codec after n bytes = replayTurns codec after m bytes := by
  induction n generalizing m bytes with
  | zero =>
      rw [List.length_eq_zero_iff.mp (Nat.le_zero.mp hn), replayTurns_nil, replayTurns_nil]
  | succ n ih =>
      cases m with
      | zero => rw [List.length_eq_zero_iff.mp (Nat.le_zero.mp hm), replayTurns_nil, replayTurns_nil]
      | succ m =>
          simp only [replayTurns]
          cases hs : readWord bytes with
          | none => rfl
          | some p =>
              obtain ⟨size, sized⟩ := p
              have hsized := readWord_length hs
              dsimp only
              cases hc : readWord sized with
              | none => rfl
              | some q =>
                  obtain ⟨checksum, summed⟩ := q
                  have hsummed := readWord_length hc
                  dsimp only
                  split
                  · exact ih (by omega) (by omega)
                  · cases hb : readBytes size.toNat summed with
                    | none => rfl
                    | some b =>
                        obtain ⟨buffer, unread⟩ := b
                        have hunread := readBytes_length hb
                        dsimp only
                        rw [ih (by omega : unread.length ≤ n) (by omega : unread.length ≤ m)]

variable {size checksum : UInt32} {sized summed buffer unread : Bytes}

theorem replay_no_size (h : readWord bytes = none) : replay codec after bytes = [] := by
  rw [replay]
  cases bytes with
  | nil => rfl
  | cons b bs => simp only [List.length_cons, replayTurns, h]

theorem replay_no_checksum (hs : readWord bytes = some (size, sized)) (hc : readWord sized = none) :
    replay codec after bytes = [] := by
  have hl := readWord_length hs
  rw [replay, hl, replayTurns, hs]
  simp only [hc]

theorem replay_oversized (hs : readWord bytes = some (size, sized)) (hc : readWord sized = some (checksum, summed))
    (h : maxEntrySize < size) : replay codec after bytes = replay codec after summed := by
  have hl := readWord_length hs
  have hl' := readWord_length hc
  rw [replay, hl, replayTurns, hs]
  simp only [hc, h, if_true]
  exact replayTurns_enough (by omega) le_rfl

theorem replay_no_payload (hs : readWord bytes = some (size, sized)) (hc : readWord sized = some (checksum, summed))
    (h : ¬ maxEntrySize < size) (hb : readBytes size.toNat summed = none) : replay codec after bytes = [] := by
  have hl := readWord_length hs
  rw [replay, hl, replayTurns, hs]
  simp only [hc, h, hb, if_false]

theorem replay_payload (hs : readWord bytes = some (size, sized)) (hc : readWord sized = some (checksum, summed))
    (h : ¬ maxEntrySize < size) (hb : readBytes size.toNat summed = some (buffer, unread)) :
    replay codec after bytes =
      ((checkedEntry codec checksum buffer).filter (fun entry => after < entry.timestamp)).toList ++
        replay codec after unread := by
  have hl := readWord_length hs
  have hl' := readWord_length hc
  have hl'' := readBytes_length hb
  rw [replay, hl, replayTurns, hs]
  simp only [hc, h, hb, if_false]
  rw [replayTurns_enough (by omega) le_rfl, replay]

/-- The entry serializes, to no more bytes than the replay accepts. -/
def Fits (codec : EntryMessage) (entry : RegistryEntry) : Prop :=
  ∃ serialized, codec.serialize entry = some serialized ∧ serialized.length ≤ maxEntrySize.toNat

/-- The entry fits, and is parsed back from what it serializes to. -/
def ReadBack (codec : EntryMessage) (entry : RegistryEntry) : Prop :=
  ∃ serialized, codec.serialize entry = some serialized ∧ serialized.length ≤ maxEntrySize.toNat ∧
    codec.parse serialized = some entry

theorem ReadBack.fits {entry : RegistryEntry} (h : ReadBack codec entry) : Fits codec entry := by
  obtain ⟨serialized, hs, hl, -⟩ := h
  exact ⟨serialized, hs, hl⟩

theorem Fits.readBack {codec : EntryCodec} {entry : RegistryEntry} (h : Fits codec entry) : ReadBack codec entry := by
  obtain ⟨serialized, hs, hl⟩ := h
  exact ⟨serialized, hs, hl, codec.parse_serialize entry serialized hs⟩

theorem size_ofNat {n : Nat} (h : n ≤ maxEntrySize.toNat) :
    (UInt32.ofNat n).toNat = n ∧ ¬ maxEntrySize < UInt32.ofNat n := by
  have hm : maxEntrySize.toNat = 10485760 := rfl
  have hn : (UInt32.ofNat n).toNat = n := by
    rw [UInt32.toNat_ofNat']
    omega
  refine ⟨hn, ?_⟩
  rw [UInt32.lt_iff_toNat_lt, hn]
  omega

theorem lt_of_le_maxEntrySize {n : Nat} (h : n ≤ maxEntrySize.toNat) : n < 2 ^ 32 :=
  h.trans_lt maxEntrySize.toNat_lt

theorem entryBytes_eq {entry : RegistryEntry} {serialized : Bytes} (hs : codec.serialize entry = some serialized)
    (h : serialized.length < 2 ^ 32) :
    entryBytes codec entry = leBytes (UInt32.ofNat serialized.length) ++
      (leBytes (computeCrc32 serialized) ++ serialized) := by
  have hsize : (UInt32.ofNat serialized.length).toNat = serialized.length := by
    rw [UInt32.toNat_ofNat', Nat.mod_eq_of_lt h]
  simp only [entryBytes, hs, recordBytes, hsize, List.take_length, List.append_assoc]

theorem replay_record {buffer : Bytes} (h : buffer.length ≤ maxEntrySize.toNat) (checksum : UInt32) (rest : Bytes) :
    replay codec after (leBytes (UInt32.ofNat buffer.length) ++ (leBytes checksum ++ (buffer ++ rest))) =
      ((checkedEntry codec checksum buffer).filter (fun entry => after < entry.timestamp)).toList ++
        replay codec after rest := by
  obtain ⟨hsize, hmax⟩ := size_ofNat h
  apply replay_payload (readWord_leBytes _ _) (readWord_leBytes _ _) hmax
  rw [hsize]
  exact readBytes_append buffer rest

theorem readSnapshot_record {buffer : Bytes} (h : buffer.length ≤ maxEntrySize.toNat) (checksum : UInt32)
    (count : Nat) (rest : Bytes) :
    readSnapshot codec (count + 1)
        (leBytes (UInt32.ofNat buffer.length) ++ (leBytes checksum ++ (buffer ++ rest))) =
      (readSnapshot codec count rest).map
        (fun (entries, unread) => ((checkedEntry codec checksum buffer).toList ++ entries, unread)) := by
  obtain ⟨hsize, hmax⟩ := size_ofNat h
  simp only [readSnapshot, readWord_leBytes, hmax, if_false, hsize, readBytes_append]
  cases readSnapshot codec count rest with
  | error e => rfl
  | ok p => rfl

theorem checkedEntry_serialized {entry : RegistryEntry} {serialized : Bytes}
    (h : codec.parse serialized = some entry) :
    checkedEntry codec (computeCrc32 serialized) serialized = some entry := by
  simp [checkedEntry, h]

theorem replay_entry {entry : RegistryEntry} (h : ReadBack codec entry) (rest : Bytes) :
    replay codec after (entryBytes codec entry ++ rest) =
      [entry].filter (fun e => after < e.timestamp) ++ replay codec after rest := by
  obtain ⟨serialized, hs, hl, hparse⟩ := h
  rw [entryBytes_eq hs (lt_of_le_maxEntrySize hl), List.append_assoc, List.append_assoc, replay_record hl,
    checkedEntry_serialized hparse]
  congr 1
  by_cases ht : after < entry.timestamp
  · simp [ht, Option.filter_some_pos]
  · simp [ht, Option.filter_some_neg]

theorem replay_entries (after : UInt64) {entries : List RegistryEntry} (h : ∀ e ∈ entries, ReadBack codec e)
    (rest : Bytes) :
    replay codec after (entries.flatMap (entryBytes codec) ++ rest) =
      entries.filter (fun e => after < e.timestamp) ++ replay codec after rest := by
  induction entries with
  | nil => simp
  | cons e es ih =>
      rw [List.flatMap_cons, List.append_assoc, replay_entry (h e (by simp)), ih (fun x hx => h x (by simp [hx])),
        ← List.append_assoc, ← List.filter_append, List.singleton_append]

/-- Nothing is read from a record that is cut short at the end of the file. -/
theorem replay_torn {entry : RegistryEntry} (h : Fits codec entry) {kept : Nat}
    (hk : kept < (entryBytes codec entry).length) :
    replay codec after ((entryBytes codec entry).take kept) = [] := by
  obtain ⟨serialized, hs, hl⟩ := h
  obtain ⟨hsize, hmax⟩ := size_ofNat hl
  have hbytes := entryBytes_eq hs (lt_of_le_maxEntrySize hl)
  have hlen : (entryBytes codec entry).length = 8 + serialized.length := by
    rw [hbytes]
    simp only [List.length_append, leBytes_length]
    omega
  by_cases h4 : kept < 4
  · exact replay_no_size (readWord_short (by rw [List.length_take]; omega))
  · have hsized : (entryBytes codec entry).take kept = leBytes (UInt32.ofNat serialized.length) ++
        (leBytes (computeCrc32 serialized) ++ serialized).take (kept - 4) := by
      rw [hbytes, List.take_append, leBytes_length, List.take_of_length_le (by rw [leBytes_length]; omega)]
    by_cases h8 : kept < 8
    · rw [hsized]
      refine replay_no_checksum (readWord_leBytes _ _) (readWord_short ?_)
      rw [List.length_take]
      omega
    · have hsummed : (leBytes (computeCrc32 serialized) ++ serialized).take (kept - 4) =
          leBytes (computeCrc32 serialized) ++ serialized.take (kept - 8) := by
        rw [List.take_append, leBytes_length, List.take_of_length_le (by rw [leBytes_length]; omega)]
        congr 2
      rw [hsized, hsummed]
      refine replay_no_payload (readWord_leBytes _ _) (readWord_leBytes _ _) hmax (readBytes_short ?_)
      rw [hsize, List.length_take]
      omega

theorem readSnapshot_entries {entries : List RegistryEntry} (h : ∀ e ∈ entries, ReadBack codec e) (rest : Bytes) :
    readSnapshot codec entries.length (entries.flatMap (entryBytes codec) ++ rest) = .ok (entries, rest) := by
  induction entries with
  | nil => rfl
  | cons e es ih =>
      obtain ⟨serialized, hs, hl, hparse⟩ := h e (by simp)
      rw [List.flatMap_cons, entryBytes_eq hs (lt_of_le_maxEntrySize hl), List.append_assoc, List.append_assoc,
        List.append_assoc, List.length_cons, readSnapshot_record hl, ih (fun x hx => h x (by simp [hx])),
        checkedEntry_serialized hparse]
      rfl

theorem recoverSnapshot_counted {count : Nat} {records : Bytes} {entries : List RegistryEntry}
    (hn : count ≤ maxSnapshotRecords.toNat) (h : readSnapshot codec count records = .ok (entries, [])) :
    recoverSnapshot codec (leBytes (UInt32.ofNat count) ++ records) = .ok entries := by
  have hm : maxSnapshotRecords.toNat = 1000000 := rfl
  have hc : (UInt32.ofNat count).toNat = count := by
    rw [UInt32.toNat_ofNat']
    omega
  have hle : ¬ maxSnapshotRecords < UInt32.ofNat count := by
    rw [UInt32.lt_iff_toNat_lt, hc]
    omega
  simp only [recoverSnapshot, readHeader, readWord_leBytes, hle, if_false, hc, h]
  rfl

theorem recoverSnapshot_snapshotBytes {entries : List RegistryEntry} (h : ∀ e ∈ entries, ReadBack codec e)
    (hn : entries.length ≤ maxSnapshotRecords.toNat) :
    recoverSnapshot codec (snapshotBytes codec entries) = .ok entries := by
  have hread := readSnapshot_entries h []
  rw [List.append_nil] at hread
  exact recoverSnapshot_counted hn hread

end BeaconNode.WalReplay
