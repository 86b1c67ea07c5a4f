import BeaconNode.Records

namespace BeaconNode.Crypto

open Words TextStream Records

/-- The digit's value, with none for the source's -1. -/
def hexValue (value : UInt8) : Option Nat :=
  if 48 ≤ value ∧ value ≤ 57 then some (value.toNat - 48)
  else if 97 ≤ value ∧ value ≤ 102 then some (10 + value.toNat - 97)
  else if 65 ≤ value ∧ value ≤ 70 then some (10 + value.toNat - 65)
  else none

/-- The decoding loop over index pairs; none where it returns early. -/
def decodePairs : Bytes → Option Bytes
  | high :: low :: rest => do
      let h ← hexValue high
      let l ← hexValue low
      let bytes ← decodePairs rest
      pure (UInt8.ofNat (16 * h + l) :: bytes)
  | _ => some []

def decodeHex (hex : Bytes) : Bytes :=
  if hex.length % 2 ≠ 0 then [] else (decodePairs hex).getD []

def hexDigit (n : Nat) : UInt8 := UInt8.ofNat (if n < 10 then 48 + n else 87 + n)

def encodeHex (bytes : Bytes) : Bytes :=
  bytes.flatMap (fun b => [hexDigit (b.toNat / 16), hexDigit (b.toNat % 16)])

def canonicalAgentPayload (record : AgentRecord) : Bytes :=
  ascii "agent_id=" ++ record.agentId ++ ascii "\n" ++
  ascii "node_id=" ++ record.nodeId ++ ascii "\n" ++
  ascii "endpoint=" ++ record.endpoint ++ ascii "\n" ++
  ascii "revision=" ++ decimal record.revision.toNat ++ ascii "\n" ++
  record.metadata.entries.flatMap
    (fun p => ascii "metadata." ++ p.1 ++ ascii "=" ++ p.2 ++ ascii "\n")

inductive SignatureStatus
  | valid | missing | invalid | unsupported
  deriving DecidableEq

def signatureStatusMessage : SignatureStatus → Bytes
  | .valid => ascii "valid"
  | .missing => ascii "missing_signature"
  | .invalid => ascii "invalid_signature"
  | .unsupported => ascii "signature_verification_unsupported"

/-- Whether crypto_sign_verify_detached returns zero, for a signature, a
message and a public key. -/
abbrev Verifier := Bytes → Bytes → Bytes → Bool

def cryptoSignPublicKeyBytes : Nat := 32
def cryptoSignBytes : Nat := 64

/-- The verifier is none in a build without libsodium. -/
def verifyAgentSignature (sodium : Option Verifier) (record : AgentRecord) : SignatureStatus :=
  if record.publicKeyHex = [] ∨ record.signatureHex = [] then .missing
  else
    let publicKey := decodeHex record.publicKeyHex
    let signature := decodeHex record.signatureHex
    if publicKey = [] ∨ signature = [] then .invalid
    else match sodium with
      | none => .unsupported
      | some verify =>
          if publicKey.length ≠ cryptoSignPublicKeyBytes ∨ signature.length ≠ cryptoSignBytes then .invalid
          else if verify signature (canonicalAgentPayload record) publicKey then .valid
          else .invalid

/-- The admission rule of both control transports, with the message for a
record that is turned away. The line handler spells it out in two branches,
the protobuf handler calls it signature_allowed. -/
def signatureRefusal (sodium : Option Verifier) (trust : TrustConfig) (record : AgentRecord) : Option Bytes :=
  let status := verifyAgentSignature sodium record
  if trust.requireSignatures = true ∧ status ≠ .valid then some (signatureStatusMessage status)
  else if trust.requireSignatures = false ∧ status = .invalid then some (ascii "invalid_signature")
  else none

def signatureAllowed (sodium : Option Verifier) (trust : TrustConfig) (record : AgentRecord) : Bool :=
  (signatureRefusal sodium trust record).isNone

theorem hexValue_hexDigit : ∀ n, n < 16 → hexValue (hexDigit n) = some n := by decide

theorem decodePairs_encodeHex (bytes : Bytes) : decodePairs (encodeHex bytes) = some bytes := by
  induction bytes with
  | nil => rfl
  | cons b bs ih =>
      have hlt := b.toNat_lt
      have hhigh : hexValue (hexDigit (b.toNat / 16)) = some (b.toNat / 16) := hexValue_hexDigit _ (by omega)
      have hlow : hexValue (hexDigit (b.toNat % 16)) = some (b.toNat % 16) := hexValue_hexDigit _ (by omega)
      have hbyte : UInt8.ofNat (16 * (b.toNat / 16) + b.toNat % 16) = b := by
        rw [Nat.div_add_mod, UInt8.ofNat_toNat]
      change decodePairs (hexDigit (b.toNat / 16) :: hexDigit (b.toNat % 16) :: encodeHex bs) = _
      simp only [decodePairs, hhigh, hlow, ih, Option.bind_eq_bind, Option.bind_some, hbyte]
      rfl

theorem encodeHex_length (bytes : Bytes) : (encodeHex bytes).length = 2 * bytes.length := by
  induction bytes with
  | nil => rfl
  | cons b bs ih =>
      change (encodeHex bs).length + 2 = 2 * (bs.length + 1)
      omega

@[simp] theorem decodeHex_encodeHex (bytes : Bytes) : decodeHex (encodeHex bytes) = bytes := by
  have heven : (encodeHex bytes).length % 2 = 0 := by
    rw [encodeHex_length]
    omega
  simp [decodeHex, heven, decodePairs_encodeHex]

theorem exists_of_mem_encodeHex {bytes : Bytes} {c : UInt8} (h : c ∈ encodeHex bytes) : ∃ n < 16, c = hexDigit n := by
  obtain ⟨b, -, hb⟩ := List.mem_flatMap.mp h
  have hlt := b.toNat_lt
  rcases List.mem_cons.mp hb with rfl | hb
  · exact ⟨b.toNat / 16, by omega, rfl⟩
  · exact ⟨b.toNat % 16, by omega, List.mem_singleton.mp hb⟩

theorem encodeHex_spaceFree (bytes : Bytes) : SpaceFree (encodeHex bytes) := by
  have hdigit : ∀ n, n < 16 → isSpace (hexDigit n) = false := by decide
  intro c hc
  obtain ⟨n, hn, rfl⟩ := exists_of_mem_encodeHex hc
  exact hdigit n hn

/-- Lower-case hex digits, two for each byte. -/
def LowerHex (hex : Bytes) : Prop := hex.length % 2 = 0 ∧ ∀ c ∈ hex, 48 ≤ c ∧ c ≤ 57 ∨ 97 ≤ c ∧ c ≤ 102

theorem lowerHex_encodeHex (bytes : Bytes) : LowerHex (encodeHex bytes) := by
  have hdigit : ∀ n < 16, 48 ≤ hexDigit n ∧ hexDigit n ≤ 57 ∨ 97 ≤ hexDigit n ∧ hexDigit n ≤ 102 := by decide
  constructor
  · rw [encodeHex_length]
    omega
  · intro c hc
    obtain ⟨n, hn, rfl⟩ := exists_of_mem_encodeHex hc
    exact hdigit n hn

theorem hexDigit_hexValue {c : UInt8} (h : 48 ≤ c ∧ c ≤ 57 ∨ 97 ≤ c ∧ c ≤ 102) :
    ∃ n < 16, hexValue c = some n ∧ hexDigit n = c := by
  have hofNat {n : Nat} (hn : n = c.toNat) : UInt8.ofNat n = c := by rw [hn, UInt8.ofNat_toNat]
  rcases h with h | h
  · have hlt : c.toNat - 48 < 10 := by
      have hle := UInt8.le_iff_toNat_le.mp h.2
      change c.toNat ≤ 57 at hle
      omega
    refine ⟨c.toNat - 48, by omega, by rw [hexValue, if_pos h], ?_⟩
    rw [hexDigit, if_pos hlt]
    apply hofNat
    have hge := UInt8.le_iff_toNat_le.mp h.1
    change 48 ≤ c.toNat at hge
    omega
  · have hge := UInt8.le_iff_toNat_le.mp h.1
    have hle := UInt8.le_iff_toNat_le.mp h.2
    change 97 ≤ c.toNat at hge
    change c.toNat ≤ 102 at hle
    have hnot : ¬ (48 ≤ c ∧ c ≤ 57) := by
      rintro ⟨-, hd⟩
      have hd' := UInt8.le_iff_toNat_le.mp hd
      change c.toNat ≤ 57 at hd'
      omega
    refine ⟨10 + c.toNat - 97, by omega, by rw [hexValue, if_neg hnot, if_pos h], ?_⟩
    rw [hexDigit, if_neg (by omega)]
    apply hofNat
    omega

theorem decodePairs_lower : ∀ hex, LowerHex hex → ∃ bytes, decodePairs hex = some bytes ∧ encodeHex bytes = hex
  | [], _ => ⟨[], rfl, rfl⟩
  | [_], h => absurd h.1 (by simp)
  | c :: d :: rest, h => by
      obtain ⟨high, hh, hc, hhc⟩ := hexDigit_hexValue (h.2 c (by simp))
      obtain ⟨low, hl, hd, hld⟩ := hexDigit_hexValue (h.2 d (by simp))
      have hrest : LowerHex rest := by
        refine ⟨?_, fun x hx => h.2 x (by simp [hx])⟩
        have hlength := h.1
        simp only [List.length_cons] at hlength
        omega
      obtain ⟨bytes, hb, he⟩ := decodePairs_lower rest hrest
      refine ⟨UInt8.ofNat (16 * high + low) :: bytes, by simp [decodePairs, hc, hd, hb], ?_⟩
      have hvalue : (UInt8.ofNat (16 * high + low)).toNat = 16 * high + low := by
        rw [UInt8.toNat_ofNat']
        omega
      have hhigh : (UInt8.ofNat (16 * high + low)).toNat / 16 = high := by omega
      have hlow : (UInt8.ofNat (16 * high + low)).toNat % 16 = low := by omega
      change hexDigit ((UInt8.ofNat (16 * high + low)).toNat / 16) ::
        hexDigit ((UInt8.ofNat (16 * high + low)).toNat % 16) :: encodeHex bytes = c :: d :: rest
      rw [hhigh, hlow, hhc, hld, he]

theorem encodeHex_decodeHex {hex : Bytes} (h : LowerHex hex) : encodeHex (decodeHex hex) = hex := by
  obtain ⟨bytes, hb, he⟩ := decodePairs_lower hex h
  simp [decodeHex, h.1, hb, he]

theorem verifyAgentSignature_missing {sodium : Option Verifier} {record : AgentRecord} :
    verifyAgentSignature sodium record = .missing ↔ record.publicKeyHex = [] ∨ record.signatureHex = [] := by
  simp only [verifyAgentSignature]
  split
  next h => simp [h]
  next h =>
    simp only [h, iff_false]
    split
    · simp
    · split
      · simp
      · split
        · simp
        · split <;> simp

theorem decodeHex_nil : decodeHex [] = [] := rfl

theorem verifyAgentSignature_valid {verify : Verifier} {record : AgentRecord} :
    verifyAgentSignature (some verify) record = .valid ↔
      (decodeHex record.publicKeyHex).length = cryptoSignPublicKeyBytes ∧
        (decodeHex record.signatureHex).length = cryptoSignBytes ∧
          verify (decodeHex record.signatureHex) (canonicalAgentPayload record) (decodeHex record.publicKeyHex) =
            true := by
  simp only [verifyAgentSignature]
  split
  next h =>
    -- an empty text decodes to no bytes, which is not a length that libsodium takes
    rcases h with h | h
    · simp [h, decodeHex_nil, cryptoSignPublicKeyBytes]
    · simp [h, decodeHex_nil, cryptoSignBytes]
  next =>
    split
    next h =>
      rcases h with h | h
      · simp [h, cryptoSignPublicKeyBytes]
      · simp [h, cryptoSignBytes]
    next =>
      split
      next h =>
        simp only [reduceCtorEq, false_iff]
        rintro ⟨hk, hs, -⟩
        exact h.elim (fun h => h hk) (fun h => h hs)
      next h =>
        rw [not_or, not_not, not_not] at h
        split
        next hv => simp [h, hv]
        next hv => simp [hv]

theorem key_ne_nil_of_valid {sodium : Option Verifier} {record : AgentRecord}
    (h : verifyAgentSignature sodium record = .valid) : record.publicKeyHex ≠ [] := by
  intro hk
  have hm : verifyAgentSignature sodium record = .missing := verifyAgentSignature_missing.mpr (Or.inl hk)
  rw [hm] at h
  cases h

theorem decodeHex_ne_nil_of_valid {sodium : Option Verifier} {record : AgentRecord}
    (h : verifyAgentSignature sodium record = .valid) : decodeHex record.publicKeyHex ≠ [] := by
  intro hk
  simp only [verifyAgentSignature, hk] at h
  split at h <;> simp at h

theorem valid_of_signatureAllowed {sodium : Option Verifier} {trust : TrustConfig} {record : AgentRecord}
    (ht : trust.requireSignatures = true) (h : signatureAllowed sodium trust record = true) :
    verifyAgentSignature sodium record = .valid := by
  by_contra hv
  simp [signatureAllowed, signatureRefusal, ht, hv] at h

theorem signatureAllowed_of_valid {sodium : Option Verifier} {trust : TrustConfig} {record : AgentRecord}
    (h : verifyAgentSignature sodium record = .valid) : signatureAllowed sodium trust record = true := by
  simp [signatureAllowed, signatureRefusal, h]

theorem signatureAllowed_of_keyless (sodium : Option Verifier) {trust : TrustConfig} {record : AgentRecord}
    (ht : trust.requireSignatures = false) (hk : record.publicKeyHex = []) :
    signatureAllowed sodium trust record = true := by
  have hm : verifyAgentSignature sodium record = .missing := verifyAgentSignature_missing.mpr (Or.inl hk)
  simp [signatureAllowed, signatureRefusal, ht, hm]

end BeaconNode.Crypto
