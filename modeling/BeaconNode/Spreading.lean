import BeaconNode.Runs
import Mathlib.Combinatorics.SimpleGraph.Walk.Basic

namespace BeaconNode.Spreading

open Runs

variable {σ β ι : Type} {G : SimpleGraph ι} {step : σ → β → σ} {I : σ → Prop} {Q : σ → β → Prop} {K : σ → ι → Prop}

/-- What is never forgotten and passes from neighbour to neighbour in one step
has gone as far after a run as a walk of the length of the run. -/
theorem knows_of_walk (hinv : ∀ s x, I s → Q s x → I (step s x))
    (hkeep : ∀ s x i, I s → Q s x → K s i → K (step s x) i)
    (hpass : ∀ s x i j, I s → Q s x → G.Adj i j → K s i → K (step s x) j) {s : σ} {xs : List β} (hs : I s)
    (hq : Along step Q s xs) {i j : ι} (p : G.Walk i j) (hp : p.length ≤ xs.length) (hi : K s i) :
    K (xs.foldl step s) j := by
  induction xs generalizing s i with
  | nil =>
      cases p with
      | nil => exact hi
      | cons h p => simp at hp
  | cons x xs ih =>
      obtain ⟨hx, hxs⟩ := along_cons.mp hq
      have hi' := hinv s x hs hx
      cases p with
      | nil => exact ih hi' hxs .nil (Nat.zero_le _) (hkeep s x _ hs hx hi)
      | cons h p =>
          apply ih hi' hxs p
          · simpa using hp
          · exact hpass s x _ _ hs hx h hi

end BeaconNode.Spreading
