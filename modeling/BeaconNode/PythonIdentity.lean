import BeaconNode.CanonicalPayload
import BeaconNode.Utf8
import Mathlib.Data.List.Sort

namespace BeaconNode.PythonIdentity

open Words TextStream OrderedMap Records RecordCodec CanonicalPayload Utf8

/-- A str of the SDK, as its code points. None of them is a lone surrogate. -/
abbrev Str := List Char

/-- A dict is its items in insertion order, with one item for each key. -/
structure Dict where
  items : List (Str × Str)
  nodup : (items.map Prod.fst).Nodup

structure AgentRegistration where
  agentId : Str
  nodeId : Str
  endpoint : Str
  metadata : Dict
  revision : Nat := 1

/-- Tuples compare by the key first, and strings by their code points. -/
def tupleLe (p q : Str × Str) : Prop := p.1 < q.1 ∨ p.1 = q.1 ∧ p.2 ≤ q.2

instance (p q : Str × Str) : Decidable (tupleLe p q) :=
  inferInstanceAs (Decidable (p.1 < q.1 ∨ p.1 = q.1 ∧ p.2 ≤ q.2))

def sorted (items : List (Str × Str)) : List (Str × Str) := items.insertionSort tupleLe

def str (s : String) : Str := s.toList

def metadataLine (p : Str × Str) : Str := str "metadata." ++ p.1 ++ str "=" ++ p.2

def canonicalAgentPayload (registration : AgentRegistration) : Bytes :=
  let lines := [str "agent_id=" ++ registration.agentId, str "node_id=" ++ registration.nodeId,
    str "endpoint=" ++ registration.endpoint, str "revision=" ++ Nat.toDigits 10 registration.revision]
  let lines := lines ++ (sorted registration.metadata.items).map metadataLine
  encode ((str "\n").intercalate lines ++ str "\n")

def encodePair (p : Str × Str) : Bytes × Bytes := (encode p.1, encode p.2)

/-- The record of the engine that holds the registration's strings in UTF-8. -/
structure EncodesTo (registration : AgentRegistration) (record : AgentRecord) : Prop where
  agentId : record.agentId = encode registration.agentId
  nodeId : record.nodeId = encode registration.nodeId
  endpoint : record.endpoint = encode registration.endpoint
  revision : record.revision.toNat = registration.revision
  metadata : ∀ p, p ∈ record.metadata.entries ↔ p ∈ registration.metadata.items.map encodePair

variable {registration : AgentRegistration} {record : AgentRecord}

theorem tupleLe_total (p q : Str × Str) : tupleLe p q ∨ tupleLe q p := by
  rcases lt_trichotomy p.1 q.1 with h | h | h
  · exact Or.inl (Or.inl h)
  · rcases le_total p.2 q.2 with k | k
    · exact Or.inl (Or.inr ⟨h, k⟩)
    · exact Or.inr (Or.inr ⟨h.symm, k⟩)
  · exact Or.inr (Or.inl h)

theorem tupleLe_trans {p q r : Str × Str} (h : tupleLe p q) (k : tupleLe q r) : tupleLe p r := by
  rcases h with h | ⟨h, h'⟩
  · rcases k with k | ⟨k, -⟩
    · exact Or.inl (h.trans k)
    · exact Or.inl (k ▸ h)
  · rcases k with k | ⟨k, k'⟩
    · exact Or.inl (h ▸ k)
    · exact Or.inr ⟨h.trans k, h'.trans k'⟩

theorem sorted_pairwise (items : List (Str × Str)) : (sorted items).Pairwise tupleLe :=
  haveI : Std.Total tupleLe := ⟨tupleLe_total⟩
  haveI : IsTrans (Str × Str) tupleLe := ⟨fun _ _ _ => tupleLe_trans⟩
  List.pairwise_insertionSort _ items

theorem mem_sorted {items : List (Str × Str)} {p : Str × Str} : p ∈ sorted items ↔ p ∈ items :=
  List.mem_insertionSort _

/-- The keys of a dict are distinct, so the order of the values never
decides. -/
theorem sorted_keys (metadata : Dict) : (sorted metadata.items).Pairwise (fun p q => p.1 < q.1) := by
  have hperm : ((sorted metadata.items).map Prod.fst).Perm (metadata.items.map Prod.fst) :=
    (List.perm_insertionSort tupleLe metadata.items).map Prod.fst
  have hne : (sorted metadata.items).Pairwise (fun p q => p.1 ≠ q.1) :=
    List.pairwise_map.mp (hperm.nodup_iff.mpr metadata.nodup)
  refine ((sorted_pairwise metadata.items).and hne).imp ?_
  rintro p q ⟨h | ⟨h, -⟩, hpq⟩
  · exact h
  · exact absurd h hpq

/-- The map of the engine iterates in the order in which the SDK sorts. -/
theorem entries_eq_sorted (h : EncodesTo registration record) :
    record.metadata.entries = (sorted registration.metadata.items).map encodePair := by
  apply SortedMap.entries_eq
  · rw [List.pairwise_map]
    exact (sorted_keys registration.metadata).imp fun hpq => encode_lt hpq
  · intro p
    simp only [h.metadata, List.mem_map, mem_sorted]

theorem intercalate_append (sep : Str) {lines : List Str} (h : lines ≠ []) :
    sep.intercalate lines ++ sep = lines.flatMap (fun l => l ++ sep) := by
  induction lines with
  | nil => exact absurd rfl h
  | cons l ls ih =>
      cases ls with
      | nil => simp [List.intercalate]
      | cons m ms =>
          rw [List.flatMap_cons, ← ih (by simp)]
          simp [List.intercalate]

theorem encode_flatMap (lines : List Str) (sep : Str) :
    encode (lines.flatMap (fun l => l ++ sep)) = (lines.map encode).flatMap (fun l => l ++ encode sep) := by
  induction lines with
  | nil => rfl
  | cons l ls ih => rw [List.flatMap_cons, encode_append, encode_append, ih, List.map_cons, List.flatMap_cons]

theorem encode_digits (n : Nat) : encode (Nat.toDigits 10 n) = decimal n := by
  rw [encode, decimal, List.map_eq_flatMap]
  apply List.flatMap_congr
  intro c hc
  have hd := digit_toNat hc
  exact encodeChar_one (by omega)

theorem encode_metadataLine (p : Str × Str) : encode (metadataLine p) = metadataToken (encodePair p) := by
  have hm : encode (str "metadata.") = ascii "metadata." := by decide
  have he : encode (str "=") = [equals] := by decide
  rw [metadataLine, encode_append, encode_append, encode_append, hm, he]
  simp [metadataToken, encodePair]

def engineMetadata (metadata : Dict) : Metadata :=
  (metadata.items.map encodePair).foldl (fun m p => m.insert p.1 p.2) .empty

def engineRecord (registration : AgentRegistration) : AgentRecord where
  agentId := encode registration.agentId
  nodeId := encode registration.nodeId
  endpoint := encode registration.endpoint
  metadata := engineMetadata registration.metadata
  revision := UInt64.ofNat registration.revision
  expiresAt := 0

theorem engineRecord_encodesTo (h : registration.revision < 2 ^ 64) :
    EncodesTo registration (engineRecord registration) where
  agentId := rfl
  nodeId := rfl
  endpoint := rfl
  revision := by
    simp only [engineRecord, UInt64.toNat_ofNat']
    exact Nat.mod_eq_of_lt h
  metadata p := by
    have hkeys : ((registration.metadata.items.map encodePair).map Prod.fst).Nodup := by
      rw [List.map_map]
      exact List.pairwise_map.mpr ((List.pairwise_map.mp registration.metadata.nodup).imp
        fun hne he => hne (encode_injective he))
    refine (SortedMap.mem_foldl_insert hkeys ?_).trans ?_
    · intro q hq
      cases hq
    · simp [SortedMap.empty]

/-- A payload that the SDK signs is, byte for byte, the payload that the
engine verifies for the encoded record. -/
theorem payload_agrees (registration : AgentRegistration) (h : registration.revision < 2 ^ 64) :
    (∃ record, EncodesTo registration record) ∧
      ∀ record, EncodesTo registration record →
        canonicalAgentPayload registration = Crypto.canonicalAgentPayload record := by
  refine ⟨⟨engineRecord registration, engineRecord_encodesTo h⟩, fun record he => ?_⟩
  have hn : encode (str "\n") = [newline] := by decide
  have ha : encode (str "agent_id=") = ascii "agent_id=" := by decide
  have ho : encode (str "node_id=") = ascii "node_id=" := by decide
  have hp : encode (str "endpoint=") = ascii "endpoint=" := by decide
  have hr : encode (str "revision=") = ascii "revision=" := by decide
  have hm : ((sorted registration.metadata.items).map metadataLine).map encode =
      record.metadata.entries.map metadataToken := by
    rw [entries_eq_sorted he, List.map_map, List.map_map]
    exact List.map_congr_left fun p _ => encode_metadataLine p
  rw [canonicalAgentPayload, intercalate_append _ (by simp), encode_flatMap, canonicalAgentPayload_eq, hn]
  simp only [payloadLines, List.map_append, List.map_cons, List.map_nil, encode_append, encode_digits, ha, ho, hp, hr,
    hm, he.agentId, he.nodeId, he.endpoint, he.revision]

/-- The second key comes before the first in UTF-16 and after it in UTF-8, and
the last is a beginning of the third. -/
def unicodeRegistration : AgentRegistration where
  agentId := str "agent-1"
  nodeId := str "nœud"
  endpoint := str "127.0.0.1:9000"
  metadata := ⟨[(str "～", str "a"), (str "😀", str "b"), (str "zz", str "c"), (str "z", str "é")], by decide⟩
  revision := 2

theorem payload_agrees_unicode :
    canonicalAgentPayload unicodeRegistration = Crypto.canonicalAgentPayload (engineRecord unicodeRegistration) :=
  (payload_agrees unicodeRegistration (by decide)).2 _ (engineRecord_encodesTo (by decide))

end BeaconNode.PythonIdentity
