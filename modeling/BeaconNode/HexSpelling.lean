import BeaconNode.KeyPinning

namespace BeaconNode.HexSpelling

open Words TextStream Records Crypto Identity Registry KeyPinning

def HexText (hex : Bytes) : Prop :=
  hex.length % 2 = 0 ∧ ∀ c ∈ hex, 48 ≤ c ∧ c ≤ 57 ∨ 97 ≤ c ∧ c ≤ 102 ∨ 65 ≤ c ∧ c ≤ 70

instance (hex : Bytes) : Decidable (HexText hex) := inferInstanceAs (Decidable (_ ∧ _))

/-- std::tolower in the C locale. -/
def toLower (c : UInt8) : UInt8 := if 65 ≤ c ∧ c ≤ 90 then c + 32 else c

def lowerCase (text : Bytes) : Bytes := text.map toLower

variable {hex : Bytes} {c : UInt8}

theorem toLower_toNat (c : UInt8) :
    (toLower c).toNat = if 65 ≤ c.toNat ∧ c.toNat ≤ 90 then c.toNat + 32 else c.toNat := by
  simp only [toLower, UInt8.le_iff_toNat_le, UInt8.reduceToNat]
  split
  next h =>
    rw [UInt8.toNat_add, Nat.mod_eq_of_lt]
    · rfl
    · change c.toNat + 32 < 2 ^ 8
      omega
  next => rfl

theorem hexValue_toLower (c : UInt8) : hexValue (toLower c) = hexValue c := by
  simp only [hexValue, UInt8.le_iff_toNat_le, toLower_toNat, UInt8.reduceToNat]
  by_cases h : 65 ≤ c.toNat ∧ c.toNat ≤ 90
  · rw [if_pos h]
    by_cases hdigit : c.toNat ≤ 70
    · rw [if_neg (by omega), if_pos (by omega), if_neg (by omega), if_neg (by omega), if_pos (by omega)]
      congr 1
    · rw [if_neg (by omega), if_neg (by omega), if_neg (by omega), if_neg (by omega), if_neg (by omega),
        if_neg (by omega)]
  · rw [if_neg h]

theorem decodePairs_lowerCase : ∀ hex, decodePairs (lowerCase hex) = decodePairs hex
  | [] => rfl
  | [_] => rfl
  | high :: low :: rest => by
      have ih := decodePairs_lowerCase rest
      simp only [lowerCase, List.map_cons, decodePairs, hexValue_toLower] at ih ⊢
      rw [ih]

theorem decodeHex_lowerCase (hex : Bytes) : decodeHex (lowerCase hex) = decodeHex hex := by
  have hlength : (lowerCase hex).length = hex.length := List.length_map _
  rw [decodeHex, decodeHex, hlength, decodePairs_lowerCase]

theorem lowerHex_lowerCase (h : HexText hex) : LowerHex (lowerCase hex) := by
  refine ⟨by simpa [lowerCase] using h.1, ?_⟩
  intro c hc
  obtain ⟨d, hd, rfl⟩ := List.mem_map.mp hc
  have hdigit := h.2 d hd
  simp only [UInt8.le_iff_toNat_le, toLower_toNat, UInt8.reduceToNat] at hdigit ⊢
  split
  next => omega
  next => omega

theorem encodeHex_decodeHex_lowerCase (h : HexText hex) : encodeHex (decodeHex hex) = lowerCase hex := by
  rw [← decodeHex_lowerCase, encodeHex_decodeHex (lowerHex_lowerCase h)]

theorem hexValue_isSome {n : Nat} (h : hexValue c = some n) :
    48 ≤ c ∧ c ≤ 57 ∨ 97 ≤ c ∧ c ≤ 102 ∨ 65 ≤ c ∧ c ≤ 70 := by
  rw [hexValue] at h
  split at h
  next hc => exact Or.inl hc
  next =>
    split at h
    next hc => exact Or.inr (Or.inl hc)
    next =>
      split at h
      next hc => exact Or.inr (Or.inr hc)
      next => cases h

theorem hexText_of_decodePairs : ∀ {hex bytes : Bytes}, hex.length % 2 = 0 → decodePairs hex = some bytes → HexText hex
  | [], _, _, _ => ⟨rfl, by simp⟩
  | [_], _, heven, _ => absurd heven (by simp)
  | high :: low :: rest, bytes, heven, h => by
      simp only [decodePairs, Option.bind_eq_bind, Option.bind_eq_some_iff] at h
      obtain ⟨a, ha, b, hb, tail, htail, -⟩ := h
      have hrest : HexText rest := by
        apply hexText_of_decodePairs _ htail
        simp only [List.length_cons] at heven
        omega
      refine ⟨heven, ?_⟩
      intro c hc
      rcases List.mem_cons.mp hc with rfl | hc
      · exact hexValue_isSome ha
      · rcases List.mem_cons.mp hc with rfl | hc
        · exact hexValue_isSome hb
        · exact hrest.2 c hc

theorem decodeHex_of_not_hexText (h : ¬ HexText hex) : decodeHex hex = [] := by
  rw [decodeHex]
  split
  next => rfl
  next heven =>
    cases hd : decodePairs hex with
    | none => rfl
    | some bytes => exact absurd (hexText_of_decodePairs (not_not.mp heven) hd) h

/-- Bytes come back from their text, a text from its bytes up to the case of
its letters, and nothing from any other text. -/
theorem hex_codec :
    (∀ bytes, decodeHex (encodeHex bytes) = bytes) ∧
      (∀ hex, HexText hex → encodeHex (decodeHex hex) = lowerCase hex) ∧
        ∀ hex, ¬ HexText hex → decodeHex hex = [] :=
  ⟨decodeHex_encodeHex, fun _ => encodeHex_decodeHex_lowerCase, fun _ => decodeHex_of_not_hexText⟩

example : encodeHex (decodeHex (ascii "0aF9")) = ascii "0af9" := by decide

variable {registry : AgentRegistry} {first second : AgentRecord}

def SpelledApart (hex other : Bytes) : Prop := lowerCase hex = lowerCase other ∧ hex ≠ other

theorem decodeHex_eq_iff {other : Bytes} (h : HexText hex) (ho : HexText other) :
    decodeHex hex = decodeHex other ↔ lowerCase hex = lowerCase other := by
  constructor
  · intro hd
    rw [← encodeHex_decodeHex_lowerCase h, hd, encodeHex_decodeHex_lowerCase ho]
  · intro hl
    rw [← decodeHex_lowerCase, hl, decodeHex_lowerCase]

theorem upsert_second_accepted (hfresh : registry.find first.agentId = none)
    (hagent : second.agentId = first.agentId) (hrevision : first.revision ≤ second.revision)
    (hfirst : first.publicKeyHex ≠ []) (hsecond : second.publicKeyHex ≠ []) :
    ((registry.upsert first).1.upsert second).2 = true ↔ first.publicKeyHex = second.publicKeyHex := by
  have hadmits : admits registry.records first = true := by
    rw [admits_iff]
    intro existing hf
    rw [AgentRegistry.find, hf] at hfresh
    cases hfresh
  have hstored : (registry.upsert first).1.records = storeRecord first registry.records := by
    rw [upsert_eq, if_pos hadmits]
  have hheld : findRecord second.agentId (registry.upsert first).1.records = some first := by
    rw [hstored, findRecord_storeRecord, if_pos hagent]
  have hkeys : conflictingKeys first second = true ↔ first.publicKeyHex ≠ second.publicKeyHex := by
    simp [conflictingKeys, hfirst, hsecond]
  rw [upsert_accepted, admits, hheld]
  cases hc : conflictingKeys first second with
  | true => simpa [hrevision, hc] using hkeys.mp hc
  | false => simpa [hrevision, hc] using hkeys

theorem checkKeyConsistency_pinned {identity : IdentityService} {agentId key other : Bytes}
    (h : identity.pinnedKey agentId = some key) :
    identity.checkKeyConsistency agentId other = true ↔ key = other := by
  rw [checkKeyConsistency_iff, h]
  constructor
  · intro hall
    exact (hall key rfl).symm
  · rintro rfl existing he
    exact Option.some.inj he

/-- The registry and the trust store agree on the second key of an agent
exactly when it is not the first one in other letters. -/
theorem keys_compare_alike_iff (registry : AgentRegistry) (identity : IdentityService) (first second : AgentRecord)
    (hfresh : registry.find first.agentId = none) (hagent : second.agentId = first.agentId)
    (hrevision : first.revision ≤ second.revision)
    (hfirst : HexText first.publicKeyHex ∧ first.publicKeyHex ≠ [])
    (hsecond : HexText second.publicKeyHex ∧ second.publicKeyHex ≠ [])
    (hpinned : identity.pinnedKey first.agentId = some (decodeHex first.publicKeyHex)) :
    ((((registry.upsert first).1.upsert second).2 = true ↔
        decodeHex first.publicKeyHex = decodeHex second.publicKeyHex) ∧
      (((registry.upsert first).1.upsert second).2 = true ↔
        identity.checkKeyConsistency second.agentId (decodeHex second.publicKeyHex) = true)) ↔
      ¬ SpelledApart first.publicKeyHex second.publicKeyHex := by
  rw [upsert_second_accepted hfresh hagent hrevision hfirst.2 hsecond.2, hagent, checkKeyConsistency_pinned hpinned,
    and_self_iff, decodeHex_eq_iff hfirst.1 hsecond.1]
  constructor
  · intro h hapart
    exact hapart.2 (h.mpr hapart.1)
  · intro h
    constructor
    · exact congrArg lowerCase
    · intro hl
      by_contra hne
      exact h ⟨hl, hne⟩

def lettersRecord (key : String) (revision : UInt64) : AgentRecord :=
  { agentId := ascii "a", revision := revision, publicKeyHex := ascii key, expiresAt := 0 }

theorem keys_compare_alike_other_key :
    (({} : AgentRegistry).upsert (lettersRecord "ab" 1)).1.upsert (lettersRecord "cd" 1) =
        ((({} : AgentRegistry).upsert (lettersRecord "ab" 1)).1, false) ∧
      ¬ SpelledApart (ascii "ab") (ascii "cd") := by
  have h := keys_compare_alike_iff {} ⟨[(ascii "a", [0xab])]⟩ (lettersRecord "ab" 1) (lettersRecord "cd" 1) rfl rfl
    le_rfl ⟨by decide +kernel, by decide⟩ ⟨by decide +kernel, by decide⟩ (by decide)
  refine ⟨by decide, h.mp ?_⟩
  decide

/-- The same key in capital letters is the trust store's own and another one
to the registry. -/
theorem keys_compared_apart :
    ((({} : AgentRegistry).upsert (lettersRecord "AB" 1)).1.upsert (lettersRecord "ab" 1)).2 = false ∧
      decodeHex (ascii "AB") = decodeHex (ascii "ab") ∧
        IdentityService.checkKeyConsistency ⟨[(ascii "a", decodeHex (ascii "AB"))]⟩ (ascii "a")
          (decodeHex (ascii "ab")) = true := by
  decide

end BeaconNode.HexSpelling
