import Mathlib.Order.Lattice
import Mathlib.Data.List.Pairwise
import Mathlib.Order.Defs.LinearOrder

namespace BeaconNode.OrderedMap

/-- An ordered map as the list of its entries in key order. Iteration reads
the list from the front, so two maps with the same bindings are equal. -/
structure SortedMap (κ ν : Type) [LinearOrder κ] where
  entries : List (κ × ν)
  sorted : entries.Pairwise (fun p q => p.1 < q.1)

namespace SortedMap

variable {κ ν : Type} [LinearOrder κ]

@[ext] theorem ext {m n : SortedMap κ ν} (h : m.entries = n.entries) : m = n := by
  cases m; cases n; cases h; rfl

instance [DecidableEq ν] : DecidableEq (SortedMap κ ν) := fun _ _ =>
  decidable_of_iff _ ⟨ext, congrArg SortedMap.entries⟩

def empty : SortedMap κ ν := ⟨[], .nil⟩

instance : Inhabited (SortedMap κ ν) := ⟨empty⟩

def insertEntry (k : κ) (v : ν) : List (κ × ν) → List (κ × ν)
  | [] => [(k, v)]
  | p :: ps =>
      if k < p.1 then (k, v) :: p :: ps
      else if p.1 < k then p :: insertEntry k v ps
      else (k, v) :: ps

theorem mem_insertEntry {k : κ} {v : ν} {l : List (κ × ν)} {q : κ × ν} (h : q ∈ insertEntry k v l) :
    q = (k, v) ∨ q ∈ l := by
  induction l with
  | nil => simpa [insertEntry] using h
  | cons p ps ih =>
      simp only [insertEntry] at h
      split at h
      · simpa using h
      · split at h
        · rcases List.mem_cons.mp h with rfl | hq
          · simp
          · exact (ih hq).imp_right (List.mem_cons_of_mem _)
        · rcases List.mem_cons.mp h with rfl | hq
          · simp
          · exact Or.inr (List.mem_cons_of_mem _ hq)

theorem insertEntry_sorted (k : κ) (v : ν) {l : List (κ × ν)} (h : l.Pairwise (fun p q => p.1 < q.1)) :
    (insertEntry k v l).Pairwise (fun p q => p.1 < q.1) := by
  induction l with
  | nil => simp [insertEntry]
  | cons p ps ih =>
      obtain ⟨hp, hps⟩ := List.pairwise_cons.mp h
      simp only [insertEntry]
      split
      next hk =>
        refine List.pairwise_cons.mpr ⟨fun q hq => ?_, h⟩
        rcases List.mem_cons.mp hq with rfl | hq
        · exact hk
        · exact hk.trans (hp q hq)
      next hk =>
        split
        next hk' =>
          refine List.pairwise_cons.mpr ⟨fun q hq => ?_, ih hps⟩
          rcases mem_insertEntry hq with rfl | hq
          · exact hk'
          · exact hp q hq
        next hk' =>
          have he : p.1 = k := le_antisymm (not_lt.mp hk) (not_lt.mp hk')
          exact List.pairwise_cons.mpr ⟨fun q hq => he ▸ hp q hq, hps⟩

/-- Assignment through the subscript operator: the key's binding is made or
replaced. -/
def insert (m : SortedMap κ ν) (k : κ) (v : ν) : SortedMap κ ν :=
  ⟨insertEntry k v m.entries, insertEntry_sorted k v m.sorted⟩

theorem insertEntry_append {l : List (κ × ν)} {k : κ} {v : ν} (h : ∀ p ∈ l, p.1 < k) :
    insertEntry k v l = l ++ [(k, v)] := by
  induction l with
  | nil => rfl
  | cons p ps ih =>
      have hp : p.1 < k := h p (by simp)
      simp [insertEntry, not_lt_of_gt hp, hp, ih (fun q hq => h q (by simp [hq]))]

theorem foldl_insert_entries (l : List (κ × ν)) (m : SortedMap κ ν)
    (h : (m.entries ++ l).Pairwise (fun p q => p.1 < q.1)) :
    (l.foldl (fun m p => m.insert p.1 p.2) m).entries = m.entries ++ l := by
  induction l generalizing m with
  | nil => simp
  | cons p ps ih =>
      have hp : ∀ q ∈ m.entries, q.1 < p.1 := fun q hq => (List.pairwise_append.mp h).2.2 q hq p (by simp)
      have he : (m.insert p.1 p.2).entries = m.entries ++ [p] := insertEntry_append hp
      rw [List.foldl_cons, ih, he, List.append_assoc, List.singleton_append]
      simpa [he] using h

theorem foldl_insert_empty (m : SortedMap κ ν) :
    m.entries.foldl (fun m p => m.insert p.1 p.2) empty = m :=
  ext (foldl_insert_entries m.entries empty m.sorted)

theorem mem_insertEntry_fresh {k : κ} {v : ν} {l : List (κ × ν)} (h : ∀ p ∈ l, p.1 ≠ k) {q : κ × ν} :
    q ∈ insertEntry k v l ↔ q = (k, v) ∨ q ∈ l := by
  refine ⟨mem_insertEntry, ?_⟩
  induction l with
  | nil => simp [insertEntry]
  | cons p ps ih =>
      have hp : p.1 ≠ k := h p (by simp)
      have hps := ih fun q hq => h q (by simp [hq])
      simp only [insertEntry]
      split
      · simp
      · split
        · rintro (hq | hq)
          · exact List.mem_cons_of_mem _ (hps (Or.inl hq))
          · rcases List.mem_cons.mp hq with rfl | hq
            · simp
            · exact List.mem_cons_of_mem _ (hps (Or.inr hq))
        next hk hk' => exact absurd (le_antisymm (not_lt.mp hk) (not_lt.mp hk')) hp

theorem mem_foldl_insert {l : List (κ × ν)} (hl : (l.map Prod.fst).Nodup) {m : SortedMap κ ν}
    (hm : ∀ p ∈ m.entries, p.1 ∉ l.map Prod.fst) {q : κ × ν} :
    q ∈ (l.foldl (fun m p => m.insert p.1 p.2) m).entries ↔ q ∈ m.entries ∨ q ∈ l := by
  induction l generalizing m with
  | nil => simp
  | cons p ps ih =>
      obtain ⟨hp, hps⟩ := List.nodup_cons.mp (by simpa using hl : (p.1 :: ps.map Prod.fst).Nodup)
      have hfresh : ∀ r ∈ m.entries, r.1 ≠ p.1 := by
        intro r hr he
        exact hm r hr (by simp [he])
      have hmem {r : κ × ν} : r ∈ (m.insert p.1 p.2).entries ↔ r = p ∨ r ∈ m.entries :=
        mem_insertEntry_fresh hfresh
      rw [List.foldl_cons, ih hps, hmem, List.mem_cons]
      · exact or_assoc.trans or_left_comm
      · intro r hr
        rcases hmem.mp hr with rfl | hr
        · exact hp
        · intro hc
          exact hm r hr (by simp only [List.map_cons, List.mem_cons, hc, or_true])

theorem entries_eq {m : SortedMap κ ν} {l : List (κ × ν)} (hl : l.Pairwise (fun p q => p.1 < q.1))
    (h : ∀ p, p ∈ m.entries ↔ p ∈ l) : m.entries = l := by
  have hnodup {k : List (κ × ν)} (hk : k.Pairwise (fun p q => p.1 < q.1)) : k.Nodup :=
    hk.imp fun hpq he => absurd hpq (by rw [he]; exact lt_irrefl _)
  have hperm : m.entries.Perm l := (List.perm_ext_iff_of_nodup (hnodup m.sorted) (hnodup hl)).mpr h
  refine hperm.eq_of_pairwise ?_ m.sorted hl
  intro p q _ _ hpq hqp
  exact absurd hpq hqp.asymm

theorem insert_keys {m : SortedMap κ ν} {k : κ} {v : ν} {q : κ × ν} (h : q ∈ (m.insert k v).entries) :
    q = (k, v) ∨ q ∈ m.entries :=
  mem_insertEntry h

def find (m : SortedMap κ ν) (k : κ) : Option ν := m.entries.lookup k

theorem lookup_cons_of_ne {j : κ} {p : κ × ν} {l : List (κ × ν)} (h : j ≠ p.1) :
    (p :: l).lookup j = l.lookup j := by
  rw [List.lookup_cons, beq_false_of_ne h]

theorem lookup_insertEntry (k j : κ) (v : ν) (l : List (κ × ν)) :
    (insertEntry k v l).lookup j = if j = k then some v else l.lookup j := by
  induction l with
  | nil =>
      split
      next hj => simp [insertEntry, hj]
      next hj => exact lookup_cons_of_ne hj
  | cons p ps ih =>
      simp only [insertEntry]
      split
      next =>
        split
        next hj => simp [hj]
        next hj => exact lookup_cons_of_ne hj
      next hk =>
        split
        next hlt =>
          by_cases hp : j = p.1
          · rw [if_neg (hp.trans_ne hlt.ne), List.lookup_cons, List.lookup_cons, hp, beq_self_eq_true]
          · rw [lookup_cons_of_ne hp, lookup_cons_of_ne hp, ih]
        next hk' =>
          have he : p.1 = k := le_antisymm (not_lt.mp hk) (not_lt.mp hk')
          split
          next hj => simp [hj]
          next hj => rw [lookup_cons_of_ne hj, lookup_cons_of_ne (he ▸ hj)]

theorem find_insert (m : SortedMap κ ν) (k j : κ) (v : ν) :
    (m.insert k v).find j = if j = k then some v else m.find j :=
  lookup_insertEntry k j v m.entries

end SortedMap

end BeaconNode.OrderedMap
