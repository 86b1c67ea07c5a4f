import Mathlib.Data.List.Basic

namespace BeaconNode.Runs

variable {σ α : Type} {step : σ → α → σ} {s : σ} {xs : List α}

def Always (step : σ → α → σ) (P : σ → Prop) (s : σ) (xs : List α) : Prop :=
  ∀ done, done <+: xs → P (done.foldl step s)

def Along (step : σ → α → σ) (Q : σ → α → Prop) (s : σ) (xs : List α) : Prop :=
  ∀ done x, done ++ [x] <+: xs → Q (done.foldl step s) x

theorem always_nil {P : σ → Prop} : Always step P s [] ↔ P s := by
  constructor
  · intro h
    exact h [] (List.prefix_refl _)
  · intro h done hd
    rw [List.prefix_nil.mp hd]
    exact h

theorem always_cons {P : σ → Prop} {x : α} :
    Always step P s (x :: xs) ↔ P s ∧ Always step P (step s x) xs := by
  constructor
  · intro h
    refine ⟨h [] List.nil_prefix, fun done hd => ?_⟩
    simpa using h (x :: done) (List.cons_prefix_cons.mpr ⟨rfl, hd⟩)
  · rintro ⟨hs, h⟩ done hd
    cases done with
    | nil => exact hs
    | cons y done =>
        obtain ⟨rfl, hd'⟩ := List.cons_prefix_cons.mp hd
        simpa using h done hd'

theorem along_nil {Q : σ → α → Prop} : Along step Q s [] := by
  intro done x h
  simp at h

theorem along_cons {Q : σ → α → Prop} {x : α} :
    Along step Q s (x :: xs) ↔ Q s x ∧ Along step Q (step s x) xs := by
  constructor
  · intro h
    refine ⟨h [] x (by simp), fun done y hd => ?_⟩
    simpa using h (x :: done) y (List.cons_prefix_cons.mpr ⟨rfl, hd⟩)
  · rintro ⟨hx, h⟩ done y hd
    cases done with
    | nil =>
        obtain ⟨rfl, -⟩ := List.cons_prefix_cons.mp (by simpa using hd : [y] <+: x :: xs)
        exact hx
    | cons z done =>
        obtain ⟨rfl, hd'⟩ := List.cons_prefix_cons.mp hd
        simpa using h done y hd'

theorem Always.imp {P R : σ → Prop} (h : Always step P s xs) (hpr : ∀ s, P s → R s) : Always step R s xs := by
  intro done hd
  exact hpr _ (h done hd)

theorem Along.and_forall {Q : σ → α → Prop} {A : α → Prop} (h : Along step Q s xs) (ha : ∀ x ∈ xs, A x) :
    Along step (fun s x => A x ∧ Q s x) s xs := by
  intro done x hd
  exact ⟨ha x (hd.subset (by simp)), h done x hd⟩

theorem Always.last {P : σ → Prop} (h : Always step P s xs) : P (xs.foldl step s) :=
  h xs (List.prefix_refl xs)

/-- A predicate that every permitted step keeps holds throughout a run of
permitted steps. -/
theorem always_of_step {P : σ → Prop} {Q : σ → α → Prop} (hs : P s)
    (hstep : ∀ s x, P s → Q s x → P (step s x)) (hq : Along step Q s xs) : Always step P s xs := by
  induction xs generalizing s with
  | nil => exact always_nil.mpr hs
  | cons x xs ih =>
      obtain ⟨hx, hxs⟩ := along_cons.mp hq
      exact always_cons.mpr ⟨hs, ih (hstep s x hs hx) hxs⟩

/-- Where each step, taken from a good state, ends in a good state exactly
when it meets a condition, a run stays good exactly when all its steps meet
the condition. The invariant I is what holds of the states either way. -/
theorem always_iff_along {I P : σ → Prop} {A Q : σ → α → Prop} (hi : I s) (hs : P s)
    (hinv : ∀ s x, I s → A s x → I (step s x))
    (hstep : ∀ s x, I s → A s x → P s → (P (step s x) ↔ Q s x)) (ha : Along step A s xs) :
    Always step P s xs ↔ Along step Q s xs := by
  induction xs generalizing s with
  | nil => exact ⟨fun _ => along_nil, fun _ => always_nil.mpr hs⟩
  | cons x xs ih =>
      obtain ⟨hx, hxs⟩ := along_cons.mp ha
      rw [always_cons, along_cons]
      constructor
      · rintro ⟨-, h⟩
        have hp : P (step s x) := h [] List.nil_prefix
        exact ⟨(hstep s x hi hx hs).mp hp, (ih (hinv s x hi hx) hp hxs).mp h⟩
      · rintro ⟨hq, h⟩
        have hp := (hstep s x hi hx hs).mpr hq
        exact ⟨hs, (ih (hinv s x hi hx) hp hxs).mpr h⟩

theorem along_congr {I : σ → Prop} {Q R : σ → α → Prop} (hi : I s) (hinv : ∀ s x, I s → I (step s x))
    (h : ∀ s x, I s → (Q s x ↔ R s x)) : Along step Q s xs ↔ Along step R s xs := by
  induction xs generalizing s with
  | nil => exact ⟨fun _ => along_nil, fun _ => along_nil⟩
  | cons x xs ih => rw [along_cons, along_cons, h s x hi, ih (hinv s x hi)]

end BeaconNode.Runs
