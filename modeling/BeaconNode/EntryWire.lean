import BeaconNode.WalReplay

namespace BeaconNode.EntryWire

open Words TextStream Persistence WalReplay

def varint : Nat → Nat → Bytes
  | 0, _ => []
  | width + 1, n =>
      if n < 128 then [UInt8.ofNat n] else UInt8.ofNat (n % 128 + 128) :: varint width (n / 128)

def readVarint : Nat → Bytes → Option (Nat × Bytes)
  | 0, _ => none
  | _ + 1, [] => none
  | width + 1, b :: bs =>
      if b.toNat < 128 then some (b.toNat, bs)
      else match readVarint width bs with
        | none => none
        | some (n, rest) => some (b.toNat - 128 + 128 * n, rest)

theorem readVarint_varint (width n : Nat) (rest : Bytes) (h : n < 128 ^ (width + 1)) :
    readVarint (width + 1) (varint (width + 1) n ++ rest) = some (n, rest) := by
  induction width generalizing n with
  | zero =>
      have hb : (UInt8.ofNat n).toNat = n := by
        rw [UInt8.toNat_ofNat']
        omega
      have hn : n < 128 := by omega
      simp [varint, readVarint, hn, hb]
  | succ width ih =>
      by_cases hn : n < 128
      · have hb : (UInt8.ofNat n).toNat = n := by
          rw [UInt8.toNat_ofNat']
          omega
        simp [varint, readVarint, hn, hb]
      · have hb : (UInt8.ofNat (n % 128 + 128)).toNat = n % 128 + 128 := by
          rw [UInt8.toNat_ofNat']
          omega
        have hd : n / 128 < 128 ^ (width + 1) := by
          rw [Nat.div_lt_iff_lt_mul (by omega), ← Nat.pow_succ]
          exact h
        have hge : ¬ n % 128 + 128 < 128 := by omega
        have hsum : n % 128 + 128 * (n / 128) = n := Nat.mod_add_div n 128
        rw [varint, if_neg hn, List.cons_append, readVarint, hb, if_neg hge, ih (n / 128) hd]
        simp only [Nat.add_sub_cancel, hsum]

/-- A field with its tag and length. Default values are not written. -/
def bytesField (tag : UInt8) (value : Bytes) : Bytes :=
  if value = [] then [] else tag :: (varint 10 value.length ++ value)

def timestampField (timestamp : UInt64) : Bytes :=
  if timestamp = 0 then [] else 32 :: varint 10 timestamp.toNat

def fieldBytes (entry : RegistryEntry) : Bytes :=
  bytesField 10 entry.agentId ++ (bytesField 18 entry.capability ++ (bytesField 26 entry.endpoint ++
    (timestampField entry.timestamp ++ (bytesField 42 entry.publicKey ++ bytesField 50 entry.signature))))

/-- Messages of two gigabytes and more do not serialize. -/
def serializeEntry (entry : RegistryEntry) : Option Bytes :=
  if (fieldBytes entry).length < 2 ^ 31 then some (fieldBytes entry) else none

def setField (entry : RegistryEntry) (tag : UInt8) (value : Bytes) : Option RegistryEntry :=
  if tag = 10 then some { entry with agentId := value }
  else if tag = 18 then some { entry with capability := value }
  else if tag = 26 then some { entry with endpoint := value }
  else if tag = 42 then some { entry with publicKey := value }
  else if tag = 50 then some { entry with signature := value }
  else none

def parseTurns : Nat → RegistryEntry → Bytes → Option RegistryEntry
  | _, entry, [] => some entry
  | 0, _, _ :: _ => none
  | turns + 1, entry, tag :: bytes =>
      match readVarint 10 bytes with
      | none => none
      | some (n, bytes) =>
          if tag = 32 then parseTurns turns { entry with timestamp := UInt64.ofNat n } bytes
          else match readBytes n bytes with
            | none => none
            | some (value, bytes) =>
                match setField entry tag value with
                | none => none
                | some entry => parseTurns turns entry bytes

def parseFields (entry : RegistryEntry) (bytes : Bytes) : Option RegistryEntry :=
  parseTurns bytes.length entry bytes

def parseEntry (bytes : Bytes) : Option RegistryEntry := parseFields {} bytes

theorem readVarint_length {width n : Nat} {bytes rest : Bytes} (h : readVarint width bytes = some (n, rest)) :
    rest.length ≤ bytes.length := by
  induction width generalizing n bytes with
  | zero => cases h
  | succ width ih =>
      cases bytes with
      | nil => cases h
      | cons b bs =>
          simp only [readVarint] at h
          split at h
          · obtain ⟨-, rfl⟩ := Prod.mk.inj (Option.some.inj h)
            simp
          · cases hr : readVarint width bs with
            | none => simp [hr] at h
            | some p =>
                obtain ⟨m, unread⟩ := p
                rw [hr] at h
                obtain ⟨-, rfl⟩ := Prod.mk.inj (Option.some.inj h)
                exact (ih hr).trans (Nat.le_succ _)

theorem parseTurns_enough {n m : Nat} {entry : RegistryEntry} {bytes : Bytes} (hn : bytes.length ≤ n)
    (hm : bytes.length ≤ m) : parseTurns n entry bytes = parseTurns m entry bytes := by
  induction n generalizing m entry bytes with
  | zero =>
      rw [List.length_eq_zero_iff.mp (Nat.le_zero.mp hn)]
      simp [parseTurns]
  | succ n ih =>
      cases bytes with
      | nil => simp [parseTurns]
      | cons tag bytes =>
          cases m with
          | zero => simp at hm
          | succ m =>
              simp only [List.length_cons] at hn hm
              simp only [parseTurns]
              cases hv : readVarint 10 bytes with
              | none => rfl
              | some p =>
                  obtain ⟨length, sized⟩ := p
                  have hl := readVarint_length hv
                  dsimp only
                  split
                  · exact ih (by omega) (by omega)
                  · cases hb : readBytes length sized with
                    | none => rfl
                    | some q =>
                        obtain ⟨value, unread⟩ := q
                        have hl' := readBytes_length hb
                        dsimp only
                        cases setField entry tag value with
                        | none => rfl
                        | some set => exact ih (by omega) (by omega)

theorem parseFields_bytesField {entry set : RegistryEntry} {tag : UInt8} {value : Bytes} (rest : Bytes)
    (hl : value.length < 2 ^ 31) (ht : tag ≠ 32) (hs : setField entry tag value = some set)
    (hd : value = [] → set = entry) :
    parseFields entry (bytesField tag value ++ rest) = parseFields set rest := by
  by_cases hv : value = []
  · rw [bytesField, if_pos hv, List.nil_append, hd hv]
  · have hw : readVarint 10 (varint 10 value.length ++ (value ++ rest)) = some (value.length, value ++ rest) :=
      readVarint_varint 9 value.length _ (by omega)
    have hbytes : bytesField tag value ++ rest = tag :: (varint 10 value.length ++ (value ++ rest)) := by
      simp [bytesField, hv]
    rw [hbytes, parseFields, List.length_cons, parseTurns, hw]
    simp only [ht, if_false, readBytes_append, hs]
    refine parseTurns_enough ?_ le_rfl
    simp only [List.length_append]
    omega

theorem parseFields_timestampField (entry : RegistryEntry) (timestamp : UInt64) (rest : Bytes)
    (hd : entry.timestamp = 0) :
    parseFields entry (timestampField timestamp ++ rest) = parseFields { entry with timestamp := timestamp } rest := by
  by_cases ht : timestamp = 0
  · have he : { entry with timestamp := timestamp } = entry := by rw [ht, ← hd]
    rw [timestampField, if_pos ht, List.nil_append, he]
  · have hlt := timestamp.toNat_lt
    have hw : readVarint 10 (varint 10 timestamp.toNat ++ rest) = some (timestamp.toNat, rest) :=
      readVarint_varint 9 timestamp.toNat rest (by omega)
    have hbytes : timestampField timestamp ++ rest = 32 :: (varint 10 timestamp.toNat ++ rest) := by
      simp [timestampField, ht]
    rw [hbytes, parseFields, List.length_cons, parseTurns, hw]
    simp only [if_true, UInt64.ofNat_toNat]
    exact parseTurns_enough (by simp) le_rfl

theorem bytesField_length (tag : UInt8) (value : Bytes) : value.length ≤ (bytesField tag value).length := by
  by_cases hv : value = []
  · simp [hv]
  · simp only [bytesField, hv, if_false, List.length_cons, List.length_append]
    omega

theorem parseEntry_serializeEntry (entry : RegistryEntry) (bytes : Bytes)
    (h : serializeEntry entry = some bytes) : parseEntry bytes = some entry := by
  simp only [serializeEntry] at h
  split at h
  next hlen =>
    obtain rfl := Option.some.inj h
    have ha := bytesField_length 10 entry.agentId
    have hc := bytesField_length 18 entry.capability
    have he := bytesField_length 26 entry.endpoint
    have hp := bytesField_length 42 entry.publicKey
    have hg := bytesField_length 50 entry.signature
    simp only [fieldBytes, List.length_append] at hlen
    have hagent (rest : Bytes) : parseFields {} (bytesField 10 entry.agentId ++ rest) =
        parseFields { agentId := entry.agentId } rest :=
      parseFields_bytesField rest (by omega) (by decide) rfl (fun hv => by rw [hv])
    have hcapability (rest : Bytes) :
        parseFields { agentId := entry.agentId } (bytesField 18 entry.capability ++ rest) =
          parseFields { agentId := entry.agentId, capability := entry.capability } rest :=
      parseFields_bytesField rest (by omega) (by decide) rfl (fun hv => by rw [hv])
    have hendpoint (rest : Bytes) :
        parseFields { agentId := entry.agentId, capability := entry.capability }
            (bytesField 26 entry.endpoint ++ rest) =
          parseFields { entry with timestamp := 0, publicKey := [], signature := [] } rest :=
      parseFields_bytesField rest (by omega) (by decide) rfl (fun hv => by rw [hv])
    have htimestamp (rest : Bytes) :
        parseFields { entry with timestamp := 0, publicKey := [], signature := [] }
            (timestampField entry.timestamp ++ rest) =
          parseFields { entry with publicKey := [], signature := [] } rest :=
      parseFields_timestampField _ _ rest rfl
    have hpublicKey (rest : Bytes) :
        parseFields { entry with publicKey := [], signature := [] } (bytesField 42 entry.publicKey ++ rest) =
          parseFields { entry with signature := [] } rest :=
      parseFields_bytesField rest (by omega) (by decide) rfl (fun hv => by rw [hv])
    have hsignature : parseFields { entry with signature := [] } (bytesField 50 entry.signature ++ []) =
        parseFields entry [] :=
      parseFields_bytesField [] (by omega) (by decide) rfl (fun hv => by rw [← hv])
    rw [List.append_nil] at hsignature
    rw [parseEntry, fieldBytes, hagent, hcapability, hendpoint, htimestamp, hpublicKey, hsignature]
    rfl
  next => cases h

/-- The wire format of the message, as far as entries written here use it. -/
def entryCodec : EntryCodec := ⟨⟨serializeEntry, parseEntry⟩, parseEntry_serializeEntry⟩

theorem fits_of_length {entry : RegistryEntry} (h : (fieldBytes entry).length ≤ maxEntrySize.toNat) :
    Fits entryCodec entry := by
  have hm : maxEntrySize.toNat = 10485760 := rfl
  refine ⟨fieldBytes entry, ?_, h⟩
  simp only [entryCodec, serializeEntry]
  rw [if_pos (by omega)]

def plainEntry (agentId : String) (timestamp : UInt64) : RegistryEntry :=
  { agentId := ascii agentId, capability := ascii "n", endpoint := ascii "e:1", timestamp := timestamp }

end BeaconNode.EntryWire
