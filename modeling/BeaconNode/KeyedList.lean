import Mathlib.Data.List.Basic
import Mathlib.Data.List.Nodup

namespace BeaconNode.KeyedList

variable {κ α : Type} [DecidableEq κ] (key : α → κ)

/-- The first element with the key, as find_if on the key returns it. -/
def lookup (k : κ) (l : List α) : Option α := l.find? (fun x => key x = k)

/-- Assignment through the iterator that find_if returns. -/
def modifyFirst (k : κ) (f : α → α) : List α → List α
  | [] => []
  | x :: xs => if key x = k then f x :: xs else x :: modifyFirst k f xs

/-- Overwrite the element with the key of x, or append x when there is none. -/
def put (x : α) (l : List α) : List α :=
  match lookup key (key x) l with
  | none => l ++ [x]
  | some _ => modifyFirst key (key x) (fun _ => x) l

variable {key}

theorem lookup_key {k : κ} {l : List α} {x : α} (h : lookup key k l = some x) : key x = k := by
  simpa using List.find?_some h

theorem lookup_mem {k : κ} {l : List α} {x : α} (h : lookup key k l = some x) : x ∈ l :=
  List.mem_of_find?_eq_some h

theorem lookup_eq_none {k : κ} {l : List α} : lookup key k l = none ↔ ∀ x ∈ l, key x ≠ k := by
  simp [lookup]

theorem lookup_modifyFirst (k j : κ) (f : α → α) (hf : ∀ x, key x = k → key (f x) = k) (l : List α) :
    lookup key j (modifyFirst key k f l) =
      if j = k then (lookup key k l).map f else lookup key j l := by
  induction l with
  | nil => simp [modifyFirst, lookup]
  | cons x xs ih =>
      simp only [lookup] at ih ⊢
      by_cases hx : key x = k
      · have hfx := hf x hx
        by_cases hj : j = k
        · subst hj; simp [modifyFirst, hx, hfx]
        · have hkj : ¬ k = j := fun h => hj h.symm
          simp [modifyFirst, hx, hfx, hj, hkj]
      · by_cases hxj : key x = j
        · have hj : ¬ j = k := fun h => hx (hxj.trans h)
          simp [modifyFirst, hxj, hj]
        · simp only [modifyFirst, hx, if_false, List.find?_cons, hxj, decide_false, ih]

theorem modifyFirst_keys (k : κ) (f : α → α) (hf : ∀ x, key x = k → key (f x) = k) (l : List α) :
    (modifyFirst key k f l).map key = l.map key := by
  induction l with
  | nil => rfl
  | cons x xs ih =>
      by_cases hx : key x = k
      · simp [modifyFirst, hx, hf x hx]
      · simp [modifyFirst, hx, ih]

theorem mem_modifyFirst {k : κ} {f : α → α} {l : List α} {y : α} (h : y ∈ modifyFirst key k f l) :
    (∃ x, lookup key k l = some x ∧ y = f x) ∨ y ∈ l := by
  induction l with
  | nil => simp [modifyFirst] at h
  | cons x xs ih =>
      by_cases hx : key x = k
      · simp only [modifyFirst, hx, if_true, List.mem_cons] at h
        rcases h with rfl | h
        · exact Or.inl ⟨x, by simp [lookup, hx], rfl⟩
        · exact Or.inr (List.mem_cons_of_mem _ h)
      · simp only [modifyFirst, hx, if_false, List.mem_cons] at h
        rcases h with rfl | h
        · exact Or.inr (by simp)
        · rcases ih h with ⟨z, hz, he⟩ | h
          · exact Or.inl ⟨z, by simpa [lookup, hx] using hz, he⟩
          · exact Or.inr (List.mem_cons_of_mem _ h)

theorem lookup_put (x : α) (j : κ) (l : List α) :
    lookup key j (put key x l) = if j = key x then some x else lookup key j l := by
  simp only [put]
  cases hl : lookup key (key x) l with
  | none =>
      by_cases hj : j = key x
      · subst hj
        simp only [lookup] at hl
        simp [lookup, hl]
      · have hxj : ¬ key x = j := fun h => hj h.symm
        simp [lookup, hj, hxj]
  | some y =>
      rw [lookup_modifyFirst (key x) j (fun _ => x) (fun _ _ => rfl), hl]
      rfl

theorem mem_put {x y : α} {l : List α} (h : y ∈ put key x l) : y = x ∨ y ∈ l := by
  simp only [put] at h
  split at h
  · simpa [or_comm] using h
  · rcases mem_modifyFirst h with ⟨z, -, he⟩ | h
    · exact Or.inl he
    · exact Or.inr h

theorem put_nodup {x : α} {l : List α} (h : (l.map key).Nodup) : ((put key x l).map key).Nodup := by
  simp only [put]
  cases hl : lookup key (key x) l with
  | none =>
      have hn := lookup_eq_none.mp hl
      have hx : key x ∉ l.map key := by
        simp only [List.mem_map, not_exists, not_and]
        exact hn
      simp only [List.map_append, List.map_cons, List.map_nil]
      exact List.Nodup.append h (List.nodup_singleton _) (by simpa using hx)
  | some y => simpa only [modifyFirst_keys (key x) (fun _ => x) (fun _ _ => rfl)] using h

theorem lookup_of_mem {l : List α} (h : (l.map key).Nodup) {x : α} (hx : x ∈ l) :
    lookup key (key x) l = some x := by
  induction l with
  | nil => simp at hx
  | cons y ys ih =>
      obtain ⟨hy, hys⟩ := List.nodup_cons.mp (by simpa using h : (key y :: ys.map key).Nodup)
      rcases List.mem_cons.mp hx with rfl | hx
      · simp [lookup]
      · have hne : key y ≠ key x := fun he => hy (he ▸ List.mem_map_of_mem hx)
        simpa [lookup, hne] using ih hys hx

theorem lookup_map_eq_some {ν : Type} {l : List α} (h : (l.map key).Nodup) {k : κ} {v : ν} (f : α → ν) :
    (lookup key k l).map f = some v ↔ (k, v) ∈ l.map (fun x => (key x, f x)) := by
  simp only [Option.map_eq_some_iff, List.mem_map, Prod.mk.injEq]
  constructor
  · rintro ⟨x, hx, rfl⟩
    exact ⟨x, lookup_mem hx, lookup_key hx, rfl⟩
  · rintro ⟨x, hx, rfl, rfl⟩
    exact ⟨x, lookup_of_mem h hx, rfl⟩

section Renaming

variable {μ : Type} [DecidableEq μ] {f : κ → μ}

theorem lookup_comp (hf : f.Injective) (k : κ) (l : List α) : lookup (fun x => f (key x)) (f k) l = lookup key k l := by
  simp only [lookup, hf.eq_iff]

theorem put_comp (hf : f.Injective) (x : α) (l : List α) : put (fun x => f (key x)) x l = put key x l := by
  have hmodify : modifyFirst (fun x => f (key x)) (f (key x)) (fun _ => x) l =
      modifyFirst key (key x) (fun _ => x) l := by
    induction l with
    | nil => rfl
    | cons y ys ih => simp only [modifyFirst, hf.eq_iff, ih]
  rw [put, put, lookup_comp hf, hmodify]

end Renaming

theorem lookup_filter_of_pos {l : List α} {k : κ} {p : α → Bool} {x : α} (h : lookup key k l = some x)
    (hp : p x = true) : lookup key k (l.filter p) = some x := by
  simp only [lookup] at h ⊢
  induction l with
  | nil => cases h
  | cons y ys ih =>
      by_cases hy : key y = k
      · obtain rfl : y = x := by simpa [hy] using h
        simp [hp, hy]
      · rw [List.find?_cons, decide_eq_false hy] at h
        cases hkeep : p y with
        | true =>
            rw [List.filter_cons_of_pos hkeep, List.find?_cons, decide_eq_false hy]
            exact ih h
        | false =>
            rw [List.filter_cons_of_neg (by simp [hkeep])]
            exact ih h

/-- With one element for each key, a lookup after a filter is the filtered
lookup: no later element with the key can take its place. -/
theorem lookup_filter {l : List α} (h : (l.map key).Nodup) (k : κ) (p : α → Bool) :
    lookup key k (l.filter p) = (lookup key k l).filter p := by
  cases hl : lookup key k l with
  | none =>
      have hn := lookup_eq_none.mp hl
      exact lookup_eq_none.mpr fun x hx => hn x (List.mem_of_mem_filter hx)
  | some x =>
      cases hp : p x with
      | true => rw [lookup_filter_of_pos hl hp, Option.filter_some_pos hp]
      | false =>
          obtain rfl := lookup_key hl
          rw [Option.filter_some_neg hp]
          refine lookup_eq_none.mpr fun y hy he => ?_
          obtain ⟨hyl, hpy⟩ := List.mem_filter.mp hy
          have hyx : lookup key (key x) l = some y := he ▸ lookup_of_mem h hyl
          rw [hl, Option.some.injEq] at hyx
          rw [← hyx, hp] at hpy
          exact Bool.false_ne_true hpy

/-- A fold whose steps each touch one key of the state and look at no other,
seen from one key: at most one step counts, and it might as well have been
the first. -/
theorem view_foldl {σ ν : Type} (step : σ → α → σ) (view : κ → σ → ν)
    (hother : ∀ s x k, k ≠ key x → view k (step s x) = view k s)
    (hown : ∀ s t x, view (key x) s = view (key x) t → view (key x) (step s x) = view (key x) (step t x))
    {l : List α} (h : (l.map key).Nodup) (k : κ) (s : σ) :
    view k (l.foldl step s) =
      match lookup key k l with
      | none => view k s
      | some x => view k (step s x) := by
  induction l generalizing s with
  | nil => rfl
  | cons y ys ih =>
      obtain ⟨hy, hys⟩ := List.nodup_cons.mp (by simpa using h : (key y :: ys.map key).Nodup)
      rw [List.foldl_cons, ih hys]
      by_cases hk : key y = k
      · have hnone : lookup key k ys = none :=
          lookup_eq_none.mpr fun x hx he => hy (hk ▸ he ▸ List.mem_map_of_mem hx)
        have hsome : lookup key k (y :: ys) = some y := by simp [lookup, hk]
        rw [hnone, hsome]
      · have htail : lookup key k (y :: ys) = lookup key k ys := by simp [lookup, hk]
        have hkeep : view k (step s y) = view k s := hother s y k fun he => hk he.symm
        rw [htail]
        cases hl : lookup key k ys with
        | none => exact hkeep
        | some x =>
            obtain rfl := lookup_key hl
            exact hown _ _ x hkeep

end BeaconNode.KeyedList
