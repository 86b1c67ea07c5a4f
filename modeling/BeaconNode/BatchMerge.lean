import BeaconNode.PullPolicy
import BeaconNode.SignedRegistry
import BeaconNode.VersionedLog
import Mathlib.Tactic.Tauto

namespace BeaconNode.BatchMerge

open Words TextStream Records Crypto Identity Registry VersionedLog PullPolicy SignedRegistry Runs

/-- The record is validly signed for an agent without a pinned key, and upsert
refuses it in this registry. -/
def PinsRefused (sodium : Option Verifier) (node : Node) (r : AgentRecord) : Prop :=
  ∃ identity, node.identity = some identity ∧ verifyAgentSignature sodium r = .valid ∧
    identity.pinnedKey r.agentId = none ∧ admits node.registry.records r = false

/-- A record that the loop does not count leaves nothing behind. -/
def RefusedUntouched (sodium : Option Verifier) (node : Node) (r : AgentRecord) : Prop :=
  (mergeRecord sodium node r).2 = false → mergeTurn sodium node r = node

variable {sodium : Option Verifier} {node : Node} {r : AgentRecord}

theorem upsert_refused (node : Node) (h : admits node.registry.records r = false) : node.upsert r = (node, false) := by
  simp [Node.upsert, upsert_eq, h]

theorem upsert_admitted (node : Node) (h : admits node.registry.records r = true) : (node.upsert r).2 = true :=
  (upsert_accepted node.registry r).trans h

theorem verifyAndRegister_unchanged {identity : IdentityService}
    (h : ¬ (verifyAgentSignature sodium r = .valid ∧ identity.pinnedKey r.agentId = none)) :
    (identity.verifyAndRegister sodium r).1 = identity := by
  by_cases hv : verifyAgentSignature sodium r = .valid
  · rw [verifyAndRegister_of_valid hv]
    cases hp : identity.pinnedKey r.agentId with
    | none => exact absurd ⟨hv, hp⟩ h
    | some existing =>
        dsimp only
        split
        · rfl
        · rfl
  · rw [verifyAndRegister_of_not_valid hv]

theorem refusedUntouched_iff : RefusedUntouched sodium node r ↔ ¬ PinsRefused sodium node r := by
  constructor
  · rintro h ⟨identity, hi, hv, hp, ha⟩
    have hstatus : identity.verifyAndRegister sodium r =
        (⟨(r.agentId, decodeHex r.publicKeyHex) :: identity.trustStore⟩, .valid) := by
      rw [verifyAndRegister_of_valid hv, hp]
    have hturn : mergeRecord sodium node r =
        ({ node with identity := some ⟨(r.agentId, decodeHex r.publicKeyHex) :: identity.trustStore⟩ }, false) := by
      simp only [mergeRecord, hi, hstatus, ne_eq, not_true_eq_false, false_and, if_false]
      exact upsert_refused _ ha
    -- the key is pinned although the record is dropped
    have hsame := congrArg Node.identity (h (by rw [hturn]))
    rw [mergeTurn, hturn, hi] at hsame
    simp only [Option.some.injEq] at hsame
    have hlength := congrArg (fun i : IdentityService => i.trustStore.length) hsame
    simp at hlength
  · intro hn hr
    obtain ⟨registry, identity⟩ := node
    cases ha : admits registry.records r with
    | false =>
        cases identity with
        | none => simp [mergeTurn, mergeRecord, upsert_refused ⟨registry, none⟩ ha]
        | some identity =>
            have hkeep : (identity.verifyAndRegister sodium r).1 = identity :=
              verifyAndRegister_unchanged fun h => hn ⟨identity, rfl, h.1, h.2, ha⟩
            simp [mergeTurn, mergeRecord, hkeep, upsert_refused ⟨registry, some identity⟩ ha]
    | true =>
        cases identity with
        | none =>
            have hacc := upsert_admitted ⟨registry, none⟩ ha
            simp [mergeRecord, hacc] at hr
        | some identity =>
            have hstatus : (identity.verifyAndRegister sodium r).2 ≠ .valid ∧
                (identity.verifyAndRegister sodium r).2 ≠ .missing := by
              by_contra hs
              have hacc := upsert_admitted ⟨registry, some (identity.verifyAndRegister sodium r).1⟩ ha
              simp [mergeRecord, hs, hacc] at hr
            have hkeep : (identity.verifyAndRegister sodium r).1 = identity := by
              apply verifyAndRegister_unchanged
              rintro ⟨hv, hp⟩
              apply hstatus.1
              rw [verifyAndRegister_of_valid hv, hp]
            simp [mergeTurn, mergeRecord, hkeep, hstatus]

/-- A merge leaves no trace of the records it refuses exactly when none of
them comes, validly signed, for an agent without a pinned key while upsert
refuses it. -/
theorem refused_untouched_iff_none_pinned (sodium : Option Verifier) (node : Node) (records : List AgentRecord) :
    Along (mergeTurn sodium) (RefusedUntouched sodium) node records ↔
      Along (mergeTurn sodium) (fun node r => ¬ PinsRefused sodium node r) node records := by
  apply along_congr (I := fun _ => True)
  · trivial
  · intro _ _ _
    trivial
  · intro node r _
    exact refusedUntouched_iff

def restartedNode : Node := ⟨⟨[raisedRecord], []⟩, some {}⟩

/-- The stale record is not stored, and its key is pinned. -/
theorem restartedNode_pins_refused :
    (merge strictServer.platform.sodium restartedNode [signedRecord]).2 = 0 ∧
      ¬ Along (mergeTurn strictServer.platform.sodium) (RefusedUntouched strictServer.platform.sodium)
        restartedNode [signedRecord] := by
  constructor
  · decide +kernel
  · intro h
    obtain ⟨hr, -⟩ := along_cons.mp h
    exact refusedUntouched_iff.mp hr ⟨{}, rfl, by decide +kernel, rfl, by decide +kernel⟩

/-- What the registry hears of an agent: the record it holds, then those of
the batch in their order. -/
def heard (agentId : Bytes) (registry : AgentRegistry) (records : List AgentRecord) : List AgentRecord :=
  (registry.find agentId).toList ++ records.filter (fun r => r.agentId = agentId)

def KeysAgree (records : List AgentRecord) : Prop :=
  ∀ r ∈ records, ∀ s ∈ records, r.publicKeyHex ≠ [] → s.publicKeyHex ≠ [] → r.publicKeyHex = s.publicKeyHex

theorem KeysAgree.mono {records more : List AgentRecord} (h : KeysAgree more) (hs : records ⊆ more) :
    KeysAgree records := by
  intro r hr s hs'
  exact h r (hs hr) s (hs hs')

theorem KeysAgree.conflictingKeys_eq_false {records : List AgentRecord} {existing : AgentRecord}
    (h : KeysAgree records) (he : existing ∈ records) (hr : r ∈ records) : conflictingKeys existing r = false := by
  have hsame := h existing he r hr
  simp only [conflictingKeys, ne_eq, Bool.and_eq_false_imp, decide_eq_true_eq, Bool.and_eq_true,
    decide_eq_false_iff_not, not_not, and_imp]
  exact hsame

theorem find_upsert_of_keysAgree {registry : AgentRegistry} {agentId : Bytes}
    (h : KeysAgree (heard agentId registry [r])) :
    (registry.upsert r).1.find agentId =
      if r.agentId = agentId then newer AgentRecord.revision (registry.find agentId) r
      else registry.find agentId := by
  by_cases ha : r.agentId = agentId
  · subst ha
    rw [if_pos rfl, upsert_eq]
    cases hf : registry.find r.agentId with
    | none =>
        have hadm : admits registry.records r = true := by
          simp only [AgentRegistry.find] at hf
          simp [admits, hf]
        simp [hadm, AgentRegistry.find, findRecord_storeRecord, newer]
    | some existing =>
        have hc : conflictingKeys existing r = false := by
          apply h.conflictingKeys_eq_false
          · simp [heard, hf]
          · simp [heard]
        have hadm : admits registry.records r = decide (existing.revision ≤ r.revision) := by
          simp only [AgentRegistry.find] at hf
          simp [admits, hf, hc]
        by_cases hlt : r.revision < existing.revision
        · simp [hadm, newer, hlt, not_le.mpr hlt, hf]
        · simp [hadm, newer, hlt, not_lt.mp hlt, AgentRegistry.find, findRecord_storeRecord]
  · have hne : agentId ≠ r.agentId := fun he => ha he.symm
    rw [if_neg ha, upsert_eq]
    split
    · simp [AgentRegistry.find, findRecord_storeRecord, hne]
    · rfl

theorem newer_mem {held : Option AgentRecord} {s : AgentRecord}
    (h : newer AgentRecord.revision held r = some s) : s ∈ held.toList ++ [r] := by
  cases held with
  | none =>
      rw [← Option.some.inj h]
      simp
  | some existing =>
      simp only [newer] at h
      split at h
      · rw [← Option.some.inj h]
        simp
      · rw [← Option.some.inj h]
        simp

theorem find_upsertAll {registry : AgentRegistry} {agentId : Bytes} {records : List AgentRecord}
    (h : KeysAgree (heard agentId registry records)) :
    (upsertAll registry records).find agentId =
      lastOfMaximum AgentRecord.revision (heard agentId registry records) := by
  rw [heard, ← foldl_newer]
  induction records generalizing registry with
  | nil => rfl
  | cons r rs ih =>
      have hfirst : KeysAgree (heard agentId registry [r]) := by
        apply h.mono
        intro s hs
        simp only [heard, List.mem_append, List.mem_filter, List.mem_cons] at hs ⊢
        tauto
      have hstep := find_upsert_of_keysAgree hfirst
      have hrest : KeysAgree (heard agentId (registry.upsert r).1 rs) := by
        apply h.mono
        intro s hs
        rw [heard, hstep] at hs
        by_cases ha : r.agentId = agentId
        · rw [if_pos ha] at hs
          rcases List.mem_append.mp hs with hs | hs
          · have hm := newer_mem (Option.mem_toList.mp hs)
            simp only [heard, List.mem_append, List.filter_cons, ha, decide_true, if_true, List.mem_cons]
              at hm ⊢
            tauto
          · simp only [heard, List.mem_append, List.filter_cons, ha, decide_true, if_true, List.mem_cons]
            tauto
        · rw [if_neg ha] at hs
          simpa [heard, ha] using hs
      rw [upsertAll, List.foldl_cons, ← upsertAll, ih hrest, hstep]
      by_cases ha : r.agentId = agentId
      · rw [if_pos ha, List.filter_cons, if_pos (by simpa using ha), List.foldl_cons]
      · rw [if_neg ha, List.filter_cons, if_neg (by simpa using ha)]

theorem merge_without_identity (sodium : Option Verifier) (registry : AgentRegistry) (records : List AgentRecord) :
    (merge sodium ⟨registry, none⟩ records).1 = ⟨upsertAll registry records, none⟩ := by
  rw [merge_node]
  induction records generalizing registry with
  | nil => rfl
  | cons r rs ih =>
      rw [List.foldl_cons]
      exact ih (registry.upsert r).1

theorem upsertAll_append (registry : AgentRegistry) (records more : List AgentRecord) :
    upsertAll (upsertAll registry records) more = upsertAll registry (records ++ more) := by
  rw [upsertAll, upsertAll, upsertAll, List.foldl_append]

/-- Without an identity service a merge keeps, for each agent, the last record
of the highest revision it has heard of; where revisions tell an agent's
records apart, order and repetition of the deliveries do not matter. -/
theorem merge_last_writer_wins (sodium : Option Verifier) (registry : AgentRegistry) (records : List AgentRecord)
    (hk : ∀ a, KeysAgree (heard a registry records)) :
    (∀ a, ((merge sodium ⟨registry, none⟩ records).1.registry.find a = none ↔ heard a registry records = []) ∧
      ∀ r, (merge sodium ⟨registry, none⟩ records).1.registry.find a = some r ↔
        IsLastOfMaximum AgentRecord.revision (heard a registry records) r) ∧
    ((∀ a, (heard a registry records).Pairwise (fun r s => r.revision ≠ s.revision)) →
      (∀ others, others.Perm records → ∀ a, (merge sodium ⟨registry, none⟩ others).1.registry.find a =
        (merge sodium ⟨registry, none⟩ records).1.registry.find a) ∧
      ∀ a, (merge sodium (merge sodium ⟨registry, none⟩ records).1 records).1.registry.find a =
        (merge sodium ⟨registry, none⟩ records).1.registry.find a) := by
  simp only [merge_without_identity, upsertAll_append]
  refine ⟨fun a => ?_, fun hd => ?_⟩
  · rw [find_upsertAll (hk a)]
    exact ⟨lastOfMaximum_eq_none, fun r => lastOfMaximum_eq_some⟩
  · -- both deliveries bring the same records as the first one
    have hsame (others : List AgentRecord) (ho : ∀ r, r ∈ others ↔ r ∈ records) (a : Bytes) :
        (upsertAll registry others).find a = (upsertAll registry records).find a := by
      have hm (r : AgentRecord) : r ∈ heard a registry others ↔ r ∈ heard a registry records := by
        simp only [heard, List.mem_append, List.mem_filter, ho]
      have hinj : ∀ r ∈ heard a registry records, ∀ s ∈ heard a registry records,
          r.revision = s.revision → r = s := by
        have hsymm : Std.Symm (fun r s : AgentRecord => r.revision = s.revision → r = s) :=
          ⟨fun r s h he => (h he.symm).symm⟩
        apply List.Pairwise.forall_of_forall
        · intro r _ _
          rfl
        · exact (hd a).imp fun hne he => absurd he hne
      rw [find_upsertAll (hk a), find_upsertAll ((hk a).mono fun r hr => (hm r).mp hr)]
      exact lastOfMaximum_congr hinj hm
    exact ⟨fun others hp => hsame others fun r => hp.mem_iff, hsame _ fun r => by simp⟩

def latestRecord : AgentRecord := { signedRecord with revision := 3 }

theorem merge_last_writer_wins_raised :
    (merge none ⟨⟨[raisedRecord], []⟩, none⟩ [latestRecord, signedRecord]).1.registry.find
      signedRecord.agentId = some latestRecord := by
  have hsub (a : Bytes) : (heard a ⟨[raisedRecord], []⟩ [signedRecord, latestRecord]).Sublist
      ([raisedRecord] ++ [signedRecord, latestRecord]) := by
    refine List.Sublist.append ?_ List.filter_sublist
    cases hf : AgentRegistry.find ⟨[raisedRecord], []⟩ a with
    | none => exact List.nil_sublist _
    | some r => exact List.singleton_sublist.mpr (KeyedList.lookup_mem hf)
  have hall : KeysAgree ([raisedRecord] ++ [signedRecord, latestRecord]) := by
    intro r hr s hs _ _
    have hkey : ∀ r ∈ [raisedRecord] ++ [signedRecord, latestRecord], r.publicKeyHex = signedRecord.publicKeyHex := by
      simp [raisedRecord, latestRecord]
    rw [hkey r hr, hkey s hs]
  have hdistinct : ([raisedRecord] ++ [signedRecord, latestRecord]).Pairwise
      (fun r s => r.revision ≠ s.revision) := by
    decide +kernel
  have hwins := merge_last_writer_wins none ⟨[raisedRecord], []⟩ [signedRecord, latestRecord]
    fun a => hall.mono (hsub a).subset
  have hfirst := ((hwins.1 signedRecord.agentId).2 latestRecord).mpr
    ⟨[raisedRecord, signedRecord], [], by decide +kernel, by decide +kernel, by simp⟩
  rw [(hwins.2 fun a => hdistinct.sublist (hsub a)).1 _ (List.Perm.swap _ _ _), hfirst]

end BeaconNode.BatchMerge
