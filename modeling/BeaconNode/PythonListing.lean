import BeaconNode.KeyedList
import BeaconNode.PythonClient
import BeaconNode.PythonText
import Mathlib.Tactic.Tauto

namespace BeaconNode.PythonListing

open Words TextStream Records Crypto KeyedList LineProtocol RecordCodec Utf8 PythonIdentity PythonClient PythonText

/-- A value of the fields' dictionary. Integers in it were read from digits,
so none is negative. -/
inductive Value
  | text (s : Str)
  | int (n : Nat)
  deriving DecidableEq

abbrev Fields := List (Str × Value)

def assign (fields : Fields) (key : Str) (value : Value) : Fields := put Prod.fst (key, value) fields

def get (fields : Fields) (key : Str) : Option Value := (lookup Prod.fst key fields).map Prod.snd

variable (interpreter : Interpreter)

/-- Whatever is made of decimal digits becomes a number. -/
def parseToken (fields : Fields) (token : Str) : Except ValueError Fields :=
  if '=' ∉ token then .ok fields
  else
    let (key, value) := splitOnce '=' token
    if key = str "public_key" ∨ key = str "signature" then .ok (assign fields key (.text value))
    else if isDecimal interpreter value then
      (natOfDigits interpreter value).map (fun n => assign fields key (.int n))
    else .ok (assign fields key (.text value))

def parseFields (line : Str) : Except ValueError Fields :=
  ((PythonText.split line).drop 1).foldlM (parseToken interpreter) []

/-- What the SDK returns for a line: its class does not check that the values
of the metadata are texts. -/
structure ListedAgent where
  agentId : Str
  nodeId : Str
  endpoint : Str
  metadata : List (Str × Value)
  revision : Int
  publicKey : Bytes
  signature : Bytes
  deriving DecidableEq

def textOf : Value → Except ValueError Str
  | .text s => .ok s
  | .int n => textOfInt interpreter n

def fieldText (fields : Fields) (key : String) : Except ValueError Str :=
  match get fields (str key) with
  | none => .ok []
  | some value => textOf interpreter value

def fieldInt (fields : Fields) (key : String) : Except ValueError Int :=
  match get fields (str key) with
  | none => .ok 0
  | some (.int n) => .ok n
  | some (.text s) => intOfText interpreter s

def fieldBytes (fields : Fields) (key : String) : Except ValueError Bytes := do
  let text ← fieldText interpreter fields key
  fromHex text

def metadataOf (fields : Fields) : List (Str × Value) :=
  (fields.filter (fun p => (str "metadata.").isPrefixOf p.1)).map (fun p => (p.1.drop 9, p.2))

def parseAgent (line : Str) : Except ValueError ListedAgent := do
  let fields ← parseFields interpreter line
  let agentId ← fieldText interpreter fields "agent_id"
  let nodeId ← fieldText interpreter fields "node_id"
  let endpoint ← fieldText interpreter fields "endpoint"
  let revision ← fieldInt interpreter fields "revision"
  let publicKey ← fieldBytes interpreter fields "public_key"
  let signature ← fieldBytes interpreter fields "signature"
  pure ⟨agentId, nodeId, endpoint, metadataOf fields, revision, publicKey, signature⟩

def parseAgentList (response : Str) : Except ValueError (List ListedAgent) :=
  ((splitlines response).filter (fun line => (str "AGENT ").isPrefixOf line)).mapM (parseAgent interpreter)

def pairToken (p : Str × Str) : Str := p.1 ++ '=' :: p.2

/-- The pair's value is a number with more digits than the interpreter reads. -/
def Raises (p : Str × Str) : Prop :=
  p.1 ≠ str "public_key" ∧ p.1 ≠ str "signature" ∧ isDecimal interpreter p.2 = true ∧
    TooLong interpreter p.2.length

instance (p : Str × Str) : Decidable (Raises interpreter p) :=
  inferInstanceAs (Decidable (_ ∧ _ ∧ _ ∧ _))

def valueOf (p : Str × Str) : Value :=
  if p.1 = str "public_key" ∨ p.1 = str "signature" then .text p.2
  else if isDecimal interpreter p.2 then .int (digitsValue interpreter p.2) else .text p.2

variable {interpreter}

theorem parseToken_pair (fields : Fields) {p : Str × Str} (h : '=' ∉ p.1) :
    parseToken interpreter fields (pairToken p) =
      if Raises interpreter p then .error .tooManyDigits
      else .ok (assign fields p.1 (valueOf interpreter p)) := by
  have hmem : ¬ '=' ∉ pairToken p := not_not.mpr (by simp [pairToken])
  rw [parseToken, if_neg hmem, pairToken, splitOnce_append h]
  dsimp only
  by_cases hkey : p.1 = str "public_key" ∨ p.1 = str "signature"
  · have hraises : ¬ Raises interpreter p := by
      rintro ⟨hk, hs, -⟩
      rcases hkey with he | he
      · exact hk he
      · exact hs he
    rw [if_pos hkey, if_neg hraises, valueOf, if_pos hkey]
  · rw [if_neg hkey, valueOf, if_neg hkey]
    rw [not_or] at hkey
    cases hd : isDecimal interpreter p.2 with
    | false =>
        have hraises : ¬ Raises interpreter p := fun hr => Bool.false_ne_true (hd ▸ hr.2.2.1)
        simp [hraises]
    | true =>
        by_cases hlong : TooLong interpreter p.2.length
        · have hraises : Raises interpreter p := ⟨hkey.1, hkey.2, hd, hlong⟩
          simp [hraises, natOfDigits, hlong, Except.map]
        · have hraises : ¬ Raises interpreter p := fun hr => hlong hr.2.2.2
          simp [hraises, natOfDigits, hlong, Except.map]

theorem assign_fresh {fields : Fields} {key : Str} (h : key ∉ fields.map Prod.fst) (value : Value) :
    assign fields key value = fields ++ [(key, value)] := by
  have hl : lookup Prod.fst key fields = none := by
    rw [lookup_eq_none]
    rintro p hp rfl
    exact h (List.mem_map_of_mem hp)
  rw [assign, put, hl]

theorem foldlM_pairs (pairs : List (Str × Str)) (h : ∀ p ∈ pairs, '=' ∉ p.1) (fields : Fields)
    (hd : (fields.map Prod.fst ++ pairs.map Prod.fst).Nodup) :
    (pairs.map pairToken).foldlM (parseToken interpreter) fields =
      if ∃ p ∈ pairs, Raises interpreter p then .error .tooManyDigits
      else .ok (fields ++ pairs.map (fun p => (p.1, valueOf interpreter p))) := by
  induction pairs generalizing fields with
  | nil => simp [pure, Except.pure]
  | cons p ps ih =>
      rw [List.map_cons, List.foldlM_cons, parseToken_pair fields (h p (by simp))]
      by_cases hp : Raises interpreter p
      · rw [if_pos hp, if_pos ⟨p, by simp, hp⟩]
        rfl
      · have hfresh : p.1 ∉ fields.map Prod.fst := by
          intro hm
          exact (List.disjoint_of_nodup_append hd) hm (by simp)
        rw [if_neg hp, assign_fresh hfresh]
        refine (ih (fun q hq => h q (by simp [hq])) _ ?_).trans ?_
        · simpa using hd
        · have hany : (∃ q ∈ p :: ps, Raises interpreter q) ↔ ∃ q ∈ ps, Raises interpreter q := by
            simp [List.mem_cons, or_and_right, exists_or, hp]
          simp only [hany, List.append_assoc, List.singleton_append, List.map_cons]

/-- A text that survives the field parser: it is not made of digits, or it is
a number as it is printed, within the bound on digits. -/
def ReadsAsText (interpreter : Interpreter) (s : Str) : Prop :=
  isDecimal interpreter s = false ∨ Canonical s ∧ ¬ TooLong interpreter s.length

theorem readsAsText_iff (interpreter : Interpreter) {name : Str} (hk : name ≠ str "public_key")
    (hs : name ≠ str "signature") (value : Str) :
    ¬ Raises interpreter (name, value) ∧ textOf interpreter (valueOf interpreter (name, value)) = .ok value ↔
      ReadsAsText interpreter value := by
  rw [valueOf, if_neg (not_or.mpr ⟨hk, hs⟩), ReadsAsText]
  dsimp only
  cases hd : isDecimal interpreter value with
  | false =>
      have hraises : ¬ Raises interpreter (name, value) := fun hr => Bool.false_ne_true (hd ▸ hr.2.2.1)
      simp [hraises, textOf]
  | true =>
      have hne : value ≠ [] := by
        intro hnil
        simp [isDecimal, hnil] at hd
      have hraises : Raises interpreter (name, value) ↔ TooLong interpreter value.length := by
        simp [Raises, hk, hs, hd]
      rw [if_pos rfl, textOf, textOfInt_digitsValue hne, hraises]
      simp only [Bool.true_eq_false, false_or]
      tauto

def fixedPairs (registration : Registration) : List (Str × Str) :=
  [(str "agent_id", registration.agentId), (str "node_id", registration.nodeId),
    (str "endpoint", registration.endpoint), (str "revision", Nat.toDigits 10 registration.revision)]

def hexPair (name : String) (bytes : Bytes) : List (Str × Str) := if bytes = [] then [] else [(str name, hex bytes)]

theorem mem_hexPair {name : String} {bytes : Bytes} {p : Str × Str} :
    p ∈ hexPair name bytes ↔ bytes ≠ [] ∧ p = (str name, hex bytes) := by
  rw [hexPair]
  by_cases hb : bytes = []
  · simp [hb]
  · simp [hb]

def metadataPairs (registration : Registration) : List (Str × Str) :=
  (sorted registration.metadata.items).map (fun p => (str "metadata." ++ p.1, p.2))

def listedPairs (registration : Registration) : List (Str × Str) :=
  fixedPairs registration ++ (hexPair "public_key" registration.publicKey ++
    (hexPair "signature" registration.signature ++ metadataPairs registration))

def listedLine (registration : Registration) : Str :=
  str "AGENT" ++ ((listedPairs registration).map pairToken).flatMap (fun w => ' ' :: w)

/-- The record holds the registration, and no text in it has a character at
which one of the two languages would split it. -/
structure Listable (registration : Registration) (record : AgentRecord) : Prop where
  encodes : EncodesTo registration.toAgentRegistration record
  publicKeyHex : LowerHex record.publicKeyHex
  signatureHex : LowerHex record.signatureHex
  publicKey : registration.publicKey = decodeHex record.publicKeyHex
  signature : registration.signature = decodeHex record.signatureHex
  agentId_unbroken : Unbroken registration.agentId
  nodeId_unbroken : Unbroken registration.nodeId
  endpoint_unbroken : Unbroken registration.endpoint
  metadata : ∀ p ∈ registration.metadata.items, Unbroken p.1 ∧ '=' ∉ p.1 ∧ Unbroken p.2

variable {registration : Registration} {record : AgentRecord}

theorem Listable.publicKeyHex_eq (h : Listable registration record) :
    record.publicKeyHex = encodeHex registration.publicKey := by
  rw [h.publicKey, encodeHex_decodeHex h.publicKeyHex]

theorem Listable.signatureHex_eq (h : Listable registration record) :
    record.signatureHex = encodeHex registration.signature := by
  rw [h.signature, encodeHex_decodeHex h.signatureHex]

theorem encode_pairToken (p : Str × Str) : encode (pairToken p) = encode p.1 ++ equals :: encode p.2 := by
  have he : String.utf8EncodeChar '=' = [equals] := by decide
  rw [pairToken, encode_append, encode_cons, he]
  rfl

theorem encode_hexPair {name : String} (h : encode (str name) ++ [equals] = ascii (name ++ "=")) (bytes : Bytes) :
    ((hexPair name bytes).map pairToken).map encode =
      if encodeHex bytes = [] then [] else [ascii (name ++ "=") ++ encodeHex bytes] := by
  rw [hexPair]
  by_cases hb : bytes = []
  · simp [hb, encodeHex_eq_nil.mpr]
  · simp only [hb, encodeHex_eq_nil, if_false, List.map_cons, List.map_nil, encode_pairToken, encode_hex, ← h,
      List.append_assoc, List.singleton_append]

theorem Listable.encode_line (h : Listable registration record) :
    encode (listedLine registration ++ ['\n']) = encodeAgentLine record := by
  have hagent : encode (str "AGENT") = ascii "AGENT" := by decide
  have hnewline : encode ['\n'] = [newline] := by decide
  have hwords (words : List Str) :
      encode (words.flatMap (fun w => ' ' :: w)) = (words.map encode).flatMap (fun w => space :: w) :=
    encode_words words
  have ha : encode (str "agent_id") ++ [equals] = ascii "agent_id=" := by decide
  have ho : encode (str "node_id") ++ [equals] = ascii "node_id=" := by decide
  have hp : encode (str "endpoint") ++ [equals] = ascii "endpoint=" := by decide
  have hr : encode (str "revision") ++ [equals] = ascii "revision=" := by decide
  have hk : encode (str "public_key") ++ [equals] = ascii ("public_key" ++ "=") := by decide
  have hs : encode (str "signature") ++ [equals] = ascii ("signature" ++ "=") := by decide
  have hm : ((metadataPairs registration).map pairToken).map encode = record.metadata.entries.map metadataToken := by
    rw [entries_eq_sorted h.encodes, metadataPairs, List.map_map, List.map_map, List.map_map]
    apply List.map_congr_left
    intro p _
    have hname : encode (str "metadata.") = ascii "metadata." := by decide
    simp only [Function.comp_apply, encode_pairToken, encode_append, hname, metadataToken, encodePair]
  have hfixed : ((fixedPairs registration).map pairToken).map encode =
      [ascii "agent_id=" ++ record.agentId, ascii "node_id=" ++ record.nodeId, ascii "endpoint=" ++ record.endpoint,
        ascii "revision=" ++ decimal record.revision.toNat] := by
    simp only [fixedPairs, List.map_cons, List.map_nil, encode_pairToken, encode_digits, ← ha, ← ho, ← hp, ← hr,
      List.append_assoc, List.singleton_append, h.encodes.agentId, h.encodes.nodeId, h.encodes.endpoint,
      h.encodes.revision]
  have htokens : ((listedPairs registration).map pairToken).map encode = recordTokens record := by
    simp only [listedPairs, List.map_append, hfixed, encode_hexPair hk, encode_hexPair hs, hm, recordTokens,
      keyTokens, signatureTokens, h.publicKeyHex_eq, h.signatureHex_eq]
    rfl
  rw [encodeAgentLine_eq, listedLine, encode_append, encode_append, hwords, htokens, hagent, hnewline]

def fixedNames : List Str :=
  [str "agent_id", str "node_id", str "endpoint", str "revision", str "public_key", str "signature"]

def headPairs (registration : Registration) : List (Str × Str) :=
  fixedPairs registration ++ (hexPair "public_key" registration.publicKey ++
    hexPair "signature" registration.signature)

theorem listedPairs_eq (registration : Registration) :
    listedPairs registration = headPairs registration ++ metadataPairs registration := by
  simp only [listedPairs, headPairs, List.append_assoc]

theorem headPairs_names (registration : Registration) :
    ((headPairs registration).map Prod.fst).Sublist fixedNames := by
  have hhex (name : String) (bytes : Bytes) : ((hexPair name bytes).map Prod.fst).Sublist [str name] := by
    rw [hexPair]
    split
    · exact List.nil_sublist _
    · exact List.Sublist.refl _
  rw [headPairs, List.map_append, List.map_append]
  exact (List.Sublist.refl _).append ((hhex "public_key" registration.publicKey).append
    (hhex "signature" registration.signature))

theorem metadataPairs_name {p : Str × Str} (h : p ∈ metadataPairs registration) :
    ∃ q ∈ registration.metadata.items, p = (str "metadata." ++ q.1, q.2) := by
  obtain ⟨q, hq, rfl⟩ := List.mem_map.mp h
  exact ⟨q, mem_sorted.mp hq, rfl⟩

theorem fixedNames_not_metadata : ∀ name ∈ fixedNames, (str "metadata.").isPrefixOf name = false := by decide

theorem isPrefixOf_append (s t : Str) : s.isPrefixOf (s ++ t) = true := by
  rw [List.isPrefixOf_iff_prefix]
  exact List.prefix_append s t

theorem metadataPairs_names_nodup (registration : Registration) :
    ((metadataPairs registration).map Prod.fst).Nodup := by
  have hkeys : ((sorted registration.metadata.items).map Prod.fst).Nodup :=
    (((List.perm_insertionSort tupleLe registration.metadata.items).map Prod.fst).nodup_iff).mpr
      registration.metadata.nodup
  have hnames := hkeys.map (fun _ _ he => List.append_cancel_left he : Function.Injective (str "metadata." ++ ·))
  rw [metadataPairs, List.map_map]
  rwa [List.map_map] at hnames

theorem listedPairs_names_nodup (registration : Registration) : ((listedPairs registration).map Prod.fst).Nodup := by
  rw [listedPairs_eq, List.map_append]
  refine List.Nodup.append ((by decide : fixedNames.Nodup).sublist (headPairs_names registration))
    (metadataPairs_names_nodup registration) ?_
  intro name hh hm
  obtain ⟨p, hp, rfl⟩ := List.mem_map.mp hm
  obtain ⟨q, -, rfl⟩ := metadataPairs_name hp
  have hno := fixedNames_not_metadata _ ((headPairs_names registration).subset hh)
  rw [isPrefixOf_append] at hno
  cases hno

theorem Listable.name_equals_free (h : Listable registration record) {p : Str × Str}
    (hp : p ∈ listedPairs registration) : '=' ∉ p.1 := by
  have hfixed : ∀ name ∈ fixedNames, '=' ∉ name := by decide
  rw [listedPairs_eq] at hp
  rcases List.mem_append.mp hp with hp | hp
  · exact hfixed _ ((headPairs_names registration).subset (List.mem_map_of_mem hp))
  · obtain ⟨q, hq, rfl⟩ := metadataPairs_name hp
    simp only [List.mem_append, not_or]
    exact ⟨by decide, (h.metadata q hq).2.1⟩

theorem unbroken_hex (bytes : Bytes) : Unbroken (hex bytes) := by
  have hdigit : ∀ n < 16, isWhitespace (Nat.digitChar n) = false := by decide
  intro c hc
  obtain ⟨b, -, hb⟩ := List.mem_flatMap.mp hc
  have hlt := b.toNat_lt
  rcases List.mem_cons.mp hb with rfl | hb
  · exact hdigit _ (by omega)
  · rw [List.mem_singleton.mp hb]
    exact hdigit _ (by omega)

theorem unbroken_digits (n : Nat) : Unbroken (Nat.toDigits 10 n) := by
  intro c hc
  have hrange := (canonical_toDigits n).1 c hc
  have hdigit : ∀ m, m < 58 → 48 ≤ m → m ∉ whitespace := by decide
  simp only [isWhitespace, decide_eq_false_iff_not]
  exact hdigit _ (by omega) hrange.1

theorem Listable.unbroken_token (h : Listable registration record) {p : Str × Str}
    (hp : p ∈ listedPairs registration) : pairToken p ≠ [] ∧ Unbroken (pairToken p) := by
  have hfixed : ∀ name ∈ fixedNames, Unbroken name := by decide
  have hequals : Unbroken ['='] := by
    intro c hc
    rw [List.mem_singleton.mp hc]
    rfl
  have htoken (hname : Unbroken p.1) (hvalue : Unbroken p.2) : Unbroken (pairToken p) :=
    hname.append (hequals.append hvalue)
  refine ⟨by simp [pairToken], ?_⟩
  rw [listedPairs_eq] at hp
  rcases List.mem_append.mp hp with hp | hp
  · refine htoken (hfixed _ ((headPairs_names registration).subset (List.mem_map_of_mem hp))) ?_
    have hhex {name : String} {bytes : Bytes} (hp : p ∈ hexPair name bytes) : Unbroken p.2 := by
      rw [(mem_hexPair.mp hp).2]
      exact unbroken_hex bytes
    simp only [headPairs, fixedPairs, List.mem_append, List.mem_cons, List.not_mem_nil, or_false] at hp
    rcases hp with (rfl | rfl | rfl | rfl) | hp | hp
    · exact h.agentId_unbroken
    · exact h.nodeId_unbroken
    · exact h.endpoint_unbroken
    · exact unbroken_digits _
    · exact hhex hp
    · exact hhex hp
  · obtain ⟨q, hq, rfl⟩ := metadataPairs_name hp
    obtain ⟨hk, -, hv⟩ := h.metadata q hq
    exact htoken (Unbroken.append (by decide) hk) hv

end BeaconNode.PythonListing
