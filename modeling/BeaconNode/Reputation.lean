import BeaconNode.OrderedMap
import BeaconNode.TextStream

namespace BeaconNode.Reputation

open Words TextStream OrderedMap

/-- The counters of malformed payloads, with the one field of the trust
configuration that is read here. -/
structure ReputationEngine where
  malformedThreshold : UInt32 := 5
  malformedCounts : SortedMap Bytes UInt32 := .empty

namespace ReputationEngine

/-- The subscript operator makes a zero for a peer that is not in the map. -/
def recordMalformed (engine : ReputationEngine) (peerId : Bytes) : ReputationEngine :=
  { engine with
    malformedCounts := engine.malformedCounts.insert peerId ((engine.malformedCounts.find peerId).getD 0 + 1) }

def acceptsPeer (engine : ReputationEngine) (peerId : Bytes) : Bool :=
  match engine.malformedCounts.find peerId with
  | none => true
  | some count => count < engine.malformedThreshold

end ReputationEngine

open ReputationEngine

variable {engine : ReputationEngine} {peer : Bytes}

def recordAll (threshold : UInt32) (calls : List Bytes) : ReputationEngine :=
  calls.foldl recordMalformed { malformedThreshold := threshold }

def malformedCount (engine : ReputationEngine) (peer : Bytes) : UInt32 := (engine.malformedCounts.find peer).getD 0

theorem malformedCount_recordMalformed (engine : ReputationEngine) (caller peer : Bytes) :
    malformedCount (engine.recordMalformed caller) peer =
      if peer = caller then malformedCount engine peer + 1 else malformedCount engine peer := by
  simp only [malformedCount, recordMalformed, SortedMap.find_insert]
  split
  next h => rw [h, Option.getD_some]
  next => rfl

theorem foldl_recordMalformed (calls : List Bytes) (engine : ReputationEngine) (peer : Bytes) :
    (calls.foldl recordMalformed engine).malformedThreshold = engine.malformedThreshold ∧
      malformedCount (calls.foldl recordMalformed engine) peer =
        malformedCount engine peer + UInt32.ofNat (calls.count peer) := by
  induction calls generalizing engine with
  | nil => simp
  | cons caller calls ih =>
      obtain ⟨hthreshold, hcount⟩ := ih (engine.recordMalformed caller)
      refine ⟨hthreshold, ?_⟩
      rw [List.foldl_cons, hcount, malformedCount_recordMalformed]
      by_cases h : peer = caller
      · subst h
        rw [if_pos rfl, List.count_cons_self, UInt32.ofNat_add, UInt32.add_assoc, UInt32.add_comm 1]
        rfl
      · rw [if_neg h, List.count_cons_of_ne (Ne.symm h)]

theorem acceptsPeer_iff (h : 1 ≤ engine.malformedThreshold) :
    engine.acceptsPeer peer = true ↔ malformedCount engine peer < engine.malformedThreshold := by
  rw [acceptsPeer, malformedCount]
  cases engine.malformedCounts.find peer with
  | none =>
      have hpositive : 0 < engine.malformedThreshold := UInt32.lt_of_lt_of_le (by decide) h
      simpa using hpositive
  | some count => simp

/-- The counter of a peer is the number of its calls modulo 2^32. -/
theorem acceptsPeer_recordAll {threshold : UInt32} (h : 1 ≤ threshold) (calls : List Bytes) (peer : Bytes) :
    (recordAll threshold calls).acceptsPeer peer = true ↔ calls.count peer % 2 ^ 32 < threshold.toNat := by
  obtain ⟨hthreshold, hcount⟩ :=
    foldl_recordMalformed calls { malformedThreshold := threshold } peer
  have hzero : malformedCount { malformedThreshold := threshold } peer = 0 := rfl
  rw [hzero, UInt32.zero_add] at hcount
  rw [acceptsPeer_iff (by rw [recordAll, hthreshold]; exact h), recordAll, hcount, hthreshold,
    UInt32.lt_iff_toNat_lt, UInt32.toNat_ofNat']

theorem exists_prefix_count {calls : List Bytes} {n : Nat} (h : n ≤ calls.count peer) :
    ∃ done, done <+: calls ∧ done.count peer = n := by
  induction calls generalizing n with
  | nil => exact ⟨[], List.nil_prefix, by simpa [eq_comm] using h⟩
  | cons caller calls ih =>
      cases n with
      | zero => exact ⟨[], List.nil_prefix, rfl⟩
      | succ n =>
          by_cases hc : caller = peer
          · subst hc
            rw [List.count_cons_self] at h
            obtain ⟨done, hprefix, hdone⟩ := ih (Nat.le_of_succ_le_succ h)
            refine ⟨caller :: done, List.cons_prefix_cons.mpr ⟨rfl, hprefix⟩, ?_⟩
            rw [List.count_cons_self, hdone]
          · rw [List.count_cons_of_ne hc] at h
            obtain ⟨done, hprefix, hdone⟩ := ih h
            refine ⟨caller :: done, List.cons_prefix_cons.mpr ⟨rfl, hprefix⟩, ?_⟩
            rw [List.count_cons_of_ne hc, hdone]

/-- In every state of the run a peer is accepted exactly while it has fewer
calls than the threshold. -/
def BansExactly (threshold : UInt32) (calls : List Bytes) : Prop :=
  ∀ done, done <+: calls → ∀ peer,
    ((recordAll threshold done).acceptsPeer peer = true ↔ done.count peer < threshold.toNat)

/-- A peer that is rejected in a state of the run is rejected from there on. -/
def BansForGood (threshold : UInt32) (calls : List Bytes) : Prop :=
  ∀ done later, done ++ later <+: calls → ∀ peer,
    (recordAll threshold done).acceptsPeer peer = false →
      (recordAll threshold (done ++ later)).acceptsPeer peer = false

theorem BansExactly.forGood {threshold : UInt32} {calls : List Bytes} (h : BansExactly threshold calls) :
    BansForGood threshold calls := by
  intro done later hprefix peer hrejected
  have hdone := h done ((List.prefix_append done later).trans hprefix) peer
  rw [← Bool.not_eq_true, hdone] at hrejected
  rw [← Bool.not_eq_true, h _ hprefix peer, List.count_append]
  omega

/-- The ban is exact and for good along a run exactly when no counter comes
round. -/
theorem ban_exact_iff (threshold : UInt32) (h : 1 ≤ threshold) (calls : List Bytes) :
    (BansExactly threshold calls ∧ BansForGood threshold calls) ↔ ∀ peer, calls.count peer < 2 ^ 32 := by
  constructor
  · rintro ⟨hexact, -⟩ peer
    by_contra hcount
    -- the state in which the counter of the peer is back at zero
    obtain ⟨done, hprefix, hdone⟩ := exists_prefix_count (not_lt.mp hcount)
    have haccepts := hexact done hprefix peer
    have hpositive := UInt32.le_iff_toNat_le.mp h
    have hlt := threshold.toNat_lt
    rw [acceptsPeer_recordAll h, hdone] at haccepts
    change 1 ≤ threshold.toNat at hpositive
    omega
  · intro hcalls
    have hexact : BansExactly threshold calls := by
      intro done hprefix peer
      have hle := hprefix.sublist.count_le peer
      rw [acceptsPeer_recordAll h, Nat.mod_eq_of_lt (lt_of_le_of_lt hle (hcalls peer))]
    exact ⟨hexact, hexact.forGood⟩

theorem ban_exact_two_peers :
    BansExactly 1 [ascii "p", ascii "q"] ∧ BansForGood 1 [ascii "p", ascii "q"] :=
  (ban_exact_iff 1 (by decide) _).mpr (fun _ => lt_of_le_of_lt List.count_le_length (by decide))

/-- Five calls ban a peer under the default threshold, and 2^32 calls let it
in again. -/
theorem ban_lifted :
    (recordAll 5 (List.replicate 5 (ascii "p"))).acceptsPeer (ascii "p") = false ∧
      (recordAll 5 (List.replicate (2 ^ 32) (ascii "p"))).acceptsPeer (ascii "p") = true ∧
        ¬ (List.replicate (2 ^ 32) (ascii "p")).count (ascii "p") < (5 : UInt32).toNat := by
  have h : (1 : UInt32) ≤ 5 := by decide
  refine ⟨?_, ?_, ?_⟩
  · rw [← Bool.not_eq_true, acceptsPeer_recordAll h, List.count_replicate_self]
    decide
  · rw [acceptsPeer_recordAll h, List.count_replicate_self]
    decide
  · rw [List.count_replicate_self]
    decide

end BeaconNode.Reputation
