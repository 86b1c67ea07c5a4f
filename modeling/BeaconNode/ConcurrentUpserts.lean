import BeaconNode.RegistryLog
import BeaconNode.TextStream
import Mathlib.Logic.Function.Basic
import Mathlib.Logic.Relation

namespace BeaconNode.ConcurrentUpserts

open Words TextStream Records Registry VersionedLog RegistryLog

variable {ι : Type} [DecidableEq ι]

/-- Threads that share a registry. A thread has the calls it is still to make
and, between the lock and the callback of a call, the accepted record. -/
structure Threads (ι : Type) where
  records : List AgentRecord := []
  log : List AgentRecord := []
  calls : ι → List AgentRecord
  pending : ι → Option AgentRecord := fun _ => none

/-- The two halves of upsert: what it does under the lock, and the callback
after the lock is released. -/
inductive Step : Threads ι → Threads ι → Prop
  | accept {s : Threads ι} (i : ι) {record : AgentRecord} {rest records : List AgentRecord}
      (hc : s.calls i = record :: rest) (hp : s.pending i = none)
      (ha : applyUpsert s.records record = some records) :
      Step s { s with
        records := records
        calls := Function.update s.calls i rest
        pending := Function.update s.pending i (some record) }
  | refuse {s : Threads ι} (i : ι) {record : AgentRecord} {rest : List AgentRecord}
      (hc : s.calls i = record :: rest) (hp : s.pending i = none) (ha : applyUpsert s.records record = none) :
      Step s { s with calls := Function.update s.calls i rest }
  | append {s : Threads ι} (i : ι) {record : AgentRecord} (hp : s.pending i = some record) :
      Step s { s with log := s.log ++ [record], pending := Function.update s.pending i none }

def Finished (s : Threads ι) : Prop := ∀ i, s.calls i = [] ∧ s.pending i = none

def Logged (log : List AgentRecord) (pending : ι → Option AgentRecord) (r : AgentRecord) : Prop :=
  r ∈ log ∨ ∃ i, pending i = some r

/-- Each agent is at the highest revision logged or on its way to the log. -/
structure Mirrors (s : Threads ι) : Prop where
  le : ∀ r, Logged s.log s.pending r → (r.revision : WithBot UInt64) ≤ revisionOf r.agentId s.records
  attained : ∀ a v, revisionOf a s.records = (v : UInt64) →
    ∃ r, Logged s.log s.pending r ∧ r.agentId = a ∧ r.revision = v

variable {s t : Threads ι} {log : List AgentRecord} {pending : ι → Option AgentRecord} {i : ι}
  {record r : AgentRecord}

theorem logged_accept (hp : pending i = none) :
    Logged log (Function.update pending i (some record)) r ↔ Logged log pending r ∨ r = record := by
  constructor
  · rintro (hl | ⟨j, hj⟩)
    · exact Or.inl (Or.inl hl)
    · by_cases hji : j = i
      · subst hji
        rw [Function.update_self, Option.some.injEq] at hj
        exact Or.inr hj.symm
      · rw [Function.update_of_ne hji] at hj
        exact Or.inl (Or.inr ⟨j, hj⟩)
  · rintro ((hl | ⟨j, hj⟩) | rfl)
    · exact Or.inl hl
    · have hji : j ≠ i := by
        rintro rfl
        rw [hp] at hj
        cases hj
      exact Or.inr ⟨j, by rw [Function.update_of_ne hji, hj]⟩
    · exact Or.inr ⟨i, Function.update_self _ _ _⟩

theorem logged_append (hp : pending i = some record) :
    Logged (log ++ [record]) (Function.update pending i none) r ↔ Logged log pending r := by
  constructor
  · rintro (hl | ⟨j, hj⟩)
    · rcases List.mem_append.mp hl with hl | hl
      · exact Or.inl hl
      · rw [List.mem_singleton.mp hl]
        exact Or.inr ⟨i, hp⟩
    · by_cases hji : j = i
      · subst hji
        rw [Function.update_self] at hj
        cases hj
      · rw [Function.update_of_ne hji] at hj
        exact Or.inr ⟨j, hj⟩
  · rintro (hl | ⟨j, hj⟩)
    · exact Or.inl (List.mem_append_left _ hl)
    · by_cases hji : j = i
      · subst hji
        obtain rfl : record = r := Option.some.inj (hp.symm.trans hj)
        exact Or.inl (by simp)
      · exact Or.inr ⟨j, by rw [Function.update_of_ne hji, hj]⟩

theorem revisionOf_applyUpsert {records records' : List AgentRecord} (a : Bytes)
    (h : applyUpsert records record = some records') :
    revisionOf a records' = max (revisionOf a records) (loggedRevision a [record]) := by
  rw [applyUpsert_eq] at h
  split at h
  next ha =>
    obtain rfl := Option.some.inj h
    exact revisionOf_storeRecord_of_admits a ha
  next => cases h

theorem step_mirrors (h : Mirrors s) (hs : Step s t) : Mirrors t := by
  cases hs with
  | refuse i hc hp ha => exact ⟨h.le, h.attained⟩
  | append i hp =>
      refine ⟨fun r hr => h.le r ((logged_append hp).mp hr), fun a v hv => ?_⟩
      obtain ⟨r, hr, ha, he⟩ := h.attained a v hv
      exact ⟨r, (logged_append hp).mpr hr, ha, he⟩
  | @accept i record rest records hc hp ha =>
      have hrev (a : Bytes) := revisionOf_applyUpsert a ha
      constructor
      · intro r hr
        rw [hrev]
        rcases (logged_accept hp).mp hr with hr | rfl
        · exact (h.le r hr).trans (le_max_left _ _)
        · refine le_trans ?_ (le_max_right _ _)
          rw [loggedRevision_singleton, if_pos rfl]
      · intro a v hv
        rw [hrev, loggedRevision_singleton] at hv
        rcases max_choice (revisionOf a s.records)
            (if record.agentId = a then (record.revision : WithBot UInt64) else ⊥) with hm | hm
        · rw [hm] at hv
          obtain ⟨r, hr, hra, he⟩ := h.attained a v hv
          exact ⟨r, (logged_accept hp).mpr (Or.inl hr), hra, he⟩
        · rw [hm] at hv
          split at hv
          next hra => exact ⟨record, (logged_accept hp).mpr (Or.inr rfl), hra, WithBot.coe_inj.mp hv⟩
          next => cases hv

theorem run_mirrors (calls : ι → List AgentRecord) (h : Relation.ReflTransGen Step { calls := calls } s) :
    Mirrors s := by
  induction h with
  | refl =>
      refine ⟨fun r hr => ?_, fun a v hv => ?_⟩
      · rcases hr with hr | ⟨i, hi⟩
        · cases hr
        · cases hi
      · cases hv
  | tail _ hs ih => exact step_mirrors ih hs

omit [DecidableEq ι] in
theorem Mirrors.loggedRevision_eq (h : Mirrors s) (hf : Finished s) (a : Bytes) :
    loggedRevision a s.log = revisionOf a s.records := by
  apply le_antisymm
  · apply latest_le
    rintro r hr rfl
    exact h.le r (Or.inl hr)
  · cases hv : revisionOf a s.records with
    | bot => exact bot_le
    | coe v =>
        obtain ⟨r, hr | ⟨i, hi⟩, rfl, rfl⟩ := h.attained a v hv
        · exact le_latest_of_mem hr
        · rw [(hf i).2] at hi
          cases hi

/-- Once all calls have come to their end, the log in whatever order it was
written brings back the registry's agents at their revisions. -/
theorem log_restores_revisions (calls : ι → List AgentRecord) (s : Threads ι) (now : TimePoint)
    (h : Relation.ReflTransGen Step { calls := calls } s) (hf : Finished s) :
    SameRevisions (({} : AgentRegistry).loadFromPersistence now s.log).records s.records := by
  rw [sameRevisions_iff]
  intro a
  rw [revisionOf_loadFromPersistence]
  exact (run_mirrors calls h).loggedRevision_eq hf a

def sampleRecord (revision : UInt64) : AgentRecord :=
  { agentId := ascii "agent-1", nodeId := ascii "node-1", endpoint := ascii "127.0.0.1:9000", revision := revision
    expiresAt := 0 }

def twoCalls : Bool → List AgentRecord
  | false => [sampleRecord 1]
  | true => [sampleRecord 2]

/-- Two threads update one agent, and the later record reaches the log first. -/
theorem log_restores_revisions_reordered :
    ∃ s : Threads Bool, Relation.ReflTransGen Step { calls := twoCalls } s ∧ Finished s ∧
      s.log = [sampleRecord 2, sampleRecord 1] ∧
        SameRevisions (({} : AgentRegistry).loadFromPersistence 0 s.log).records s.records := by
  have h₁ := Relation.ReflTransGen.single (Step.accept (s := { calls := twoCalls }) false rfl rfl rfl)
  have h₂ := h₁.tail (Step.accept true rfl rfl rfl)
  have h₃ := h₂.tail (Step.append true rfl)
  have h₄ := h₃.tail (Step.append false rfl)
  refine ⟨_, h₄, ?finished, rfl, log_restores_revisions twoCalls _ 0 h₄ ?finished⟩
  intro i
  cases i with
  | false => exact ⟨rfl, rfl⟩
  | true => exact ⟨rfl, rfl⟩

end BeaconNode.ConcurrentUpserts
