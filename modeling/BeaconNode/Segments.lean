import Mathlib.Data.List.Infix
import Mathlib.Data.List.TakeWhile

namespace BeaconNode.Segments

variable {α : Type} {sep : α}

def text (sep : α) (segments : List (List α)) : List α := segments.flatMap (sep :: ·)

/-- What can stand behind a whole segment. -/
def Bounded (sep : α) (rest : List α) : Prop := rest = [] ∨ ∃ more, rest = sep :: more

theorem text_cons (segment : List α) (segments : List (List α)) :
    text sep (segment :: segments) = sep :: (segment ++ text sep segments) := by
  rw [text, List.flatMap_cons, text, List.cons_append]

theorem text_append (segments more : List (List α)) :
    text sep (segments ++ more) = text sep segments ++ text sep more :=
  List.flatMap_append

theorem bounded_text (sep : α) (segments : List (List α)) : Bounded sep (text sep segments) := by
  cases segments with
  | nil => exact Or.inl rfl
  | cons segment segments => exact Or.inr ⟨_, text_cons segment segments⟩

theorem cons_intercalate {segments : List (List α)} (h : segments ≠ []) :
    sep :: [sep].intercalate segments = text sep segments := by
  induction segments with
  | nil => exact absurd rfl h
  | cons segment segments ih =>
      cases segments with
      | nil => simp [text]
      | cons next segments =>
          rw [text_cons, ← ih (List.cons_ne_nil _ _)]
          simp [List.intercalate]

theorem eq_of_append {s t x y : List α} (hs : sep ∉ s) (ht : sep ∉ t) (hx : Bounded sep x) (hy : Bounded sep y)
    (h : s ++ x = t ++ y) : s = t ∧ x = y := by
  induction s generalizing t with
  | nil =>
      cases t with
      | nil => exact ⟨rfl, h⟩
      | cons c t =>
          rcases hx with rfl | ⟨more, rfl⟩
          · cases h
          · exact absurd (List.cons.inj h).1 (fun he => ht (he ▸ List.mem_cons_self))
  | cons c s ih =>
      cases t with
      | nil =>
          rcases hy with rfl | ⟨more, rfl⟩
          · cases h
          · exact absurd (List.cons.inj h).1 (fun he => hs (he ▸ List.mem_cons_self))
      | cons d t =>
          obtain ⟨rfl, hrest⟩ := List.cons.inj h
          obtain ⟨rfl, hxy⟩ := ih (fun hm => hs (List.mem_cons_of_mem _ hm))
            (fun hm => ht (List.mem_cons_of_mem _ hm)) hrest
          exact ⟨rfl, hxy⟩

variable {base segments : List (List α)} {rest : List α}

theorem prefix_iff_text (hb : ∀ s ∈ base, sep ∉ s) (hs : ∀ s ∈ segments, sep ∉ s) :
    base <+: segments ↔ ∃ rest, Bounded sep rest ∧ text sep segments = text sep base ++ rest := by
  constructor
  · rintro ⟨more, rfl⟩
    exact ⟨text sep more, bounded_text sep more, text_append base more⟩
  · rintro ⟨rest, hrest, h⟩
    induction base generalizing segments with
    | nil => exact List.nil_prefix
    | cons s base ih =>
        cases segments with
        | nil => cases h
        | cons t segments =>
            rw [text_cons, text_cons, List.cons_append, List.append_assoc] at h
            have hbounded : Bounded sep (text sep base ++ rest) := by
              rcases bounded_text sep base with hn | ⟨more, hm⟩
              · rw [hn]
                exact hrest
              · rw [hm]
                exact Or.inr ⟨more ++ rest, rfl⟩
            obtain ⟨rfl, htail⟩ := eq_of_append (hs t List.mem_cons_self) (hb s List.mem_cons_self)
              (bounded_text sep segments) hbounded (List.cons.inj h).2
            apply List.cons_prefix_cons.mpr ⟨rfl, _⟩
            exact ih (fun u hu => hb u (List.mem_cons_of_mem _ hu)) (fun u hu => hs u (List.mem_cons_of_mem _ hu)) htail

theorem longer_segment_iff {c : α} {last : List α} (hc : c ≠ sep) (hb : ∀ s ∈ base, sep ∉ s) (hl : sep ∉ last)
    (hs : ∀ s ∈ segments, sep ∉ s) :
    (∃ rest, text sep segments = text sep (base ++ [last]) ++ c :: rest) ↔
      ∃ tail more, segments = base ++ (last ++ c :: tail) :: more := by
  have hlast (rest : List α) : text sep (base ++ [last]) ++ rest = text sep base ++ sep :: (last ++ rest) := by
    simp [text]
  constructor
  · rintro ⟨rest, h⟩
    rw [hlast] at h
    obtain ⟨more, rfl⟩ := (prefix_iff_text hb hs).mpr ⟨_, Or.inr ⟨_, rfl⟩, h⟩
    rw [text_append, List.append_cancel_left_eq] at h
    cases more with
    | nil => cases h
    | cons s more =>
        rw [text_cons] at h
        rcases List.append_eq_append_iff.mp (List.cons.inj h).2 with ⟨t, rfl, ht⟩ | ⟨t, rfl, ht⟩
        · rcases bounded_text sep more with hn | ⟨rest', hm⟩
          · rw [hn] at ht
            simp at ht
          · rw [hm] at ht
            cases t with
            | nil => exact absurd (List.cons.inj ht).1.symm hc
            | cons d t =>
                -- a separator within the last segment
                have hd : sep = d := (List.cons.inj ht).1
                exact absurd (by simp [hd]) hl
        · cases t with
          | nil =>
              rcases bounded_text sep more with hn | ⟨rest', hm⟩
              · rw [hn] at ht
                cases ht
              · rw [hm] at ht
                exact absurd (List.cons.inj ht).1 hc
          | cons d t =>
              obtain ⟨rfl, -⟩ := List.cons.inj ht
              exact ⟨t, more, rfl⟩
  · rintro ⟨tail, more, rfl⟩
    refine ⟨tail ++ text sep more, ?_⟩
    rw [hlast, text_append, text_cons, List.append_assoc, List.cons_append]

end BeaconNode.Segments
