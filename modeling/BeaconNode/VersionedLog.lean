import Mathlib.Order.Lattice
import Mathlib.Data.List.MinMax

namespace BeaconNode.VersionedLog

variable {κ α ν : Type} [DecidableEq κ] [LinearOrder ν] (key : α → κ) (version : α → ν)

/-- The highest version that the list has for the key, and the bottom when it
has none. -/
def latest (k : κ) (l : List α) : WithBot ν := ((l.filter (fun x => key x = k)).map version).maximum

variable {key version} {k : κ} {l m : List α} {x : α}

@[simp] theorem latest_nil : latest key version k [] = ⊥ := rfl

theorem latest_singleton : latest key version k [x] = if key x = k then (version x : WithBot ν) else ⊥ := by
  by_cases h : key x = k
  · simp [latest, h]
  · simp [latest, h]

theorem latest_cons : latest key version k (x :: l) = max (latest key version k [x]) (latest key version k l) := by
  by_cases h : key x = k
  · simp [latest, h, List.maximum_cons]
  · simp [latest, h]

theorem latest_append :
    latest key version k (l ++ m) = max (latest key version k l) (latest key version k m) := by
  induction l with
  | nil => simp
  | cons x l ih => rw [List.cons_append, latest_cons (l := l ++ m), ih, latest_cons (l := l), max_assoc]

theorem latest_eq_bot : latest key version k l = ⊥ ↔ ∀ x ∈ l, key x ≠ k := by
  simp [latest, List.maximum_eq_bot]

theorem le_latest_of_mem (h : x ∈ l) : (version x : WithBot ν) ≤ latest key version (key x) l := by
  apply List.le_maximum_of_mem'
  apply List.mem_map_of_mem
  simp [h]

theorem coe_le_latest {v : ν} : (v : WithBot ν) ≤ latest key version k l ↔ ∃ x ∈ l, key x = k ∧ v ≤ version x := by
  rw [latest, List.coe_le_maximum_iff]
  simp [and_assoc]

theorem latest_le {b : WithBot ν} (h : ∀ x ∈ l, key x = k → (version x : WithBot ν) ≤ b) :
    latest key version k l ≤ b := by
  apply List.maximum_le_of_forall_le
  intro v hv
  obtain ⟨x, hx, rfl⟩ := List.mem_map.mp hv
  obtain ⟨hxl, hk⟩ := List.mem_filter.mp hx
  exact h x hxl (by simpa using hk)

theorem latest_mem {v : ν} (h : latest key version k l = v) : ∃ x ∈ l, key x = k ∧ version x = v := by
  obtain ⟨x, hx, hv⟩ := List.mem_map.mp (List.maximum_mem h)
  obtain ⟨hxl, hk⟩ := List.mem_filter.mp hx
  exact ⟨x, hxl, by simpa using hk, hv⟩

/-- One newest element for each key is as good as the whole list. -/
theorem latest_of_representatives (hsub : ∀ x ∈ m, x ∈ l)
    (hnew : ∀ x ∈ l, ∃ y ∈ m, key y = key x ∧ version x ≤ version y) :
    latest key version k m = latest key version k l := by
  apply le_antisymm
  · apply latest_le
    rintro x hx rfl
    exact le_latest_of_mem (hsub x hx)
  · apply latest_le
    rintro x hx rfl
    obtain ⟨y, hy, hk, hv⟩ := hnew x hx
    exact coe_le_latest.mpr ⟨y, hy, hk, hv⟩

variable (version)

/-- What is held after another element has arrived: the newcomer, unless its
version is lower. -/
def newer (held : Option α) (x : α) : Option α :=
  match held with
  | none => some x
  | some y => if version x < version y then some y else some x

def lastOfMaximum (l : List α) : Option α := l.foldl (newer version) none

/-- No element of the list has a higher version, and none behind it has the
same. -/
def IsLastOfMaximum (l : List α) (x : α) : Prop :=
  ∃ before after, l = before ++ x :: after ∧ (∀ y ∈ before, version y ≤ version x) ∧
    ∀ y ∈ after, version y < version x

variable {version}

theorem lastOfMaximum_snoc : lastOfMaximum version (l ++ [x]) = newer version (lastOfMaximum version l) x := by
  rw [lastOfMaximum, List.foldl_append]
  rfl

theorem foldl_newer (held : Option α) :
    l.foldl (newer version) held = lastOfMaximum version (held.toList ++ l) := by
  cases held with
  | none => rfl
  | some y => rfl

theorem IsLastOfMaximum.le {y : α} (h : IsLastOfMaximum version l x) (hy : y ∈ l) : version y ≤ version x := by
  obtain ⟨before, after, rfl, hb, ha⟩ := h
  simp only [List.mem_append, List.mem_cons] at hy
  rcases hy with hy | rfl | hy
  · exact hb y hy
  · exact le_rfl
  · exact (ha y hy).le

theorem IsLastOfMaximum.mem (h : IsLastOfMaximum version l x) : x ∈ l := by
  obtain ⟨before, after, rfl, -, -⟩ := h
  simp

theorem lastOfMaximum_spec (version : α → ν) (l : List α) :
    match lastOfMaximum version l with
    | none => l = []
    | some x => IsLastOfMaximum version l x := by
  induction l using List.reverseRecOn with
  | nil => rfl
  | append_singleton l x ih =>
      rw [lastOfMaximum_snoc]
      cases hl : lastOfMaximum version l with
      | none =>
          rw [hl] at ih
          subst ih
          exact ⟨[], [], rfl, by simp, by simp⟩
      | some y =>
          rw [hl] at ih
          by_cases hlt : version x < version y
          · simp only [newer, hlt, if_true]
            obtain ⟨before, after, rfl, hb, ha⟩ := ih
            refine ⟨before, after ++ [x], by simp, hb, fun z hz => ?_⟩
            rcases List.mem_append.mp hz with hz | hz
            · exact ha z hz
            · rw [List.mem_singleton.mp hz]
              exact hlt
          · simp only [newer, hlt, if_false]
            exact ⟨l, [], rfl, fun z hz => (ih.le hz).trans (not_lt.mp hlt), by simp⟩

theorem IsLastOfMaximum.unique {y : α} (hx : IsLastOfMaximum version l x) (hy : IsLastOfMaximum version l y) :
    x = y := by
  have he : version x = version y := le_antisymm (hy.le hx.mem) (hx.le hy.mem)
  obtain ⟨before, after, rfl, hb, ha⟩ := hx
  obtain ⟨before', after', hl, hb', ha'⟩ := hy
  -- the one that stands first has the other behind it
  rcases List.append_eq_append_iff.mp hl with ⟨m, hm, hc⟩ | ⟨m, hm, hc⟩
  · cases m with
    | nil => exact (List.cons.inj hc).1
    | cons z m =>
        obtain ⟨-, rfl⟩ := List.cons.inj hc
        exact absurd (ha y (by simp)) (by simp [he])
  · cases m with
    | nil => exact (List.cons.inj hc).1.symm
    | cons z m =>
        obtain ⟨-, rfl⟩ := List.cons.inj hc
        exact absurd (ha' x (by simp)) (by simp [he])

theorem lastOfMaximum_eq_some : lastOfMaximum version l = some x ↔ IsLastOfMaximum version l x := by
  have hspec := lastOfMaximum_spec version l
  constructor
  · intro h
    rw [h] at hspec
    exact hspec
  · intro h
    cases hl : lastOfMaximum version l with
    | none =>
        rw [hl] at hspec
        exact absurd (hspec ▸ h.mem) List.not_mem_nil
    | some y =>
        rw [hl] at hspec
        rw [hspec.unique h]

theorem lastOfMaximum_eq_none : lastOfMaximum version l = none ↔ l = [] := by
  constructor
  · intro h
    have hspec := lastOfMaximum_spec version l
    rw [h] at hspec
    exact hspec
  · rintro rfl
    rfl

/-- Where versions tell the elements apart, neither the order of a list nor
its repetitions matter. -/
theorem lastOfMaximum_congr (hd : ∀ y ∈ l, ∀ z ∈ l, version y = version z → y = z) (h : ∀ y, y ∈ m ↔ y ∈ l) :
    lastOfMaximum version m = lastOfMaximum version l := by
  cases hl : lastOfMaximum version l with
  | none =>
      rw [lastOfMaximum_eq_none] at hl ⊢
      subst hl
      exact List.eq_nil_iff_forall_not_mem.mpr fun y hy => absurd ((h y).mp hy) List.not_mem_nil
  | some x =>
      have hx := lastOfMaximum_eq_some.mp hl
      cases hm : lastOfMaximum version m with
      | none =>
          rw [lastOfMaximum_eq_none] at hm
          exact absurd (hm ▸ (h x).mpr hx.mem) List.not_mem_nil
      | some y =>
          have hy := lastOfMaximum_eq_some.mp hm
          have hyl := (h y).mp hy.mem
          rw [hd y hyl x hx.mem (le_antisymm (hx.le hyl) (hy.le ((h x).mpr hx.mem)))]

theorem view_foldl_newer {σ : Type} (step : σ → α → σ) (view : κ → σ → Option α)
    (h : ∀ s x k, view k (step s x) = if key x = k then newer version (view k s) x else view k s)
    (l : List α) (k : κ) (s : σ) :
    view k (l.foldl step s) = lastOfMaximum version ((view k s).toList ++ l.filter (fun x => key x = k)) := by
  rw [← foldl_newer]
  induction l generalizing s with
  | nil => rfl
  | cons x l ih =>
      rw [List.foldl_cons, ih, h]
      by_cases hk : key x = k
      · simp [hk]
      · simp [hk]

/-- Only the order of the versions counts. -/
theorem map_lastOfMaximum {μ : Type} [LinearOrder μ] {f : α → μ} (hf : ∀ y z, version y < version z ↔ f y < f z)
    (l : List α) : (lastOfMaximum version l).map f = lastOfMaximum id (l.map f) := by
  induction l using List.reverseRecOn with
  | nil => rfl
  | append_singleton l x ih =>
      rw [List.map_append, List.map_singleton, lastOfMaximum_snoc, lastOfMaximum_snoc, ← ih]
      cases lastOfMaximum version l with
      | none => rfl
      | some y =>
          by_cases hlt : version x < version y
          · simp [newer, hlt, (hf x y).mp hlt]
          · simp [newer, hlt, mt (hf x y).mpr hlt]

/-- Where a cut does not divide elements of one version, it does not matter
how a sort arranges them. -/
theorem mem_take_of_sorted (version : α → ν) (hp : l.Perm m) (hl : l.Pairwise (fun y z => version y ≤ version z))
    (hm : m.Pairwise (fun y z => version y ≤ version z)) {n : Nat}
    (hcut : ∀ v ∈ (l.map version).take n, ∀ w ∈ (l.map version).drop n, v ≠ w) :
    x ∈ l.take n ↔ x ∈ m.take n := by
  have hversions : l.map version = m.map version :=
    (hp.map version).eq_of_pairwise (fun _ _ _ _ => le_antisymm) (List.pairwise_map.mpr hl)
      (List.pairwise_map.mpr hm)
  -- an element on the other side of the cut would have its version there too
  have hside {l m : List α} (hp : l.Perm m) (he : l.map version = m.map version)
      (hcut : ∀ v ∈ (l.map version).take n, ∀ w ∈ (l.map version).drop n, v ≠ w) (hx : x ∈ l.take n) :
      x ∈ m.take n := by
    by_contra hn
    have hxm : x ∈ m.take n ++ m.drop n := by
      rw [List.take_append_drop]
      exact hp.mem_iff.mp (List.mem_of_mem_take hx)
    have hdrop : x ∈ m.drop n := (List.mem_append.mp hxm).resolve_left hn
    refine hcut (version x) ?_ (version x) ?_ rfl
    · rw [← List.map_take]
      exact List.mem_map_of_mem hx
    · rw [he, ← List.map_drop]
      exact List.mem_map_of_mem hdrop
  exact ⟨hside hp hversions hcut, hside hp.symm hversions.symm (hversions ▸ hcut)⟩

section FirstOfMaximum

variable (version)

/-- What is held where only a higher version takes the place of another. -/
def higher (held : Option α) (x : α) : Option α :=
  match held with
  | none => some x
  | some y => if version y < version x then some x else some y

def firstOfMaximum (l : List α) : Option α := l.foldl (higher version) none

/-- No element of the list has a higher version, and none before it has the
same. -/
def IsFirstOfMaximum (l : List α) (x : α) : Prop :=
  ∃ before after, l = before ++ x :: after ∧ (∀ y ∈ before, version y < version x) ∧
    ∀ y ∈ after, version y ≤ version x

variable {version}

theorem IsFirstOfMaximum.mem (h : IsFirstOfMaximum version l x) : x ∈ l := by
  obtain ⟨before, after, rfl, -, -⟩ := h
  simp

theorem IsFirstOfMaximum.le {y : α} (h : IsFirstOfMaximum version l x) (hy : y ∈ l) : version y ≤ version x := by
  obtain ⟨before, after, rfl, hb, ha⟩ := h
  simp only [List.mem_append, List.mem_cons] at hy
  rcases hy with hy | rfl | hy
  · exact (hb y hy).le
  · exact le_rfl
  · exact ha y hy

theorem IsFirstOfMaximum.find (h : IsFirstOfMaximum version l x) :
    l.find? (fun y => version y = version x) = some x := by
  obtain ⟨before, after, rfl, hb, -⟩ := h
  have hnone : before.find? (fun y => version y = version x) = none := by
    rw [List.find?_eq_none]
    intro y hy
    simp [(hb y hy).ne]
  simp [hnone]

theorem IsFirstOfMaximum.eq_head {y : α} (h : IsFirstOfMaximum version (y :: l) x) (hle : version x ≤ version y) :
    x = y := by
  obtain ⟨before, after, he, hb, -⟩ := h
  cases before with
  | nil => exact (List.cons.inj he).1.symm
  | cons z before =>
      obtain ⟨rfl, -⟩ := List.cons.inj he
      exact absurd (hb y (by simp)) (not_lt.mpr hle)

theorem firstOfMaximum_spec (version : α → ν) (l : List α) :
    match firstOfMaximum version l with
    | none => l = []
    | some x => IsFirstOfMaximum version l x := by
  induction l using List.reverseRecOn with
  | nil => rfl
  | append_singleton l x ih =>
      have hsnoc : firstOfMaximum version (l ++ [x]) = higher version (firstOfMaximum version l) x := by
        rw [firstOfMaximum, List.foldl_append]
        rfl
      rw [hsnoc]
      cases hl : firstOfMaximum version l with
      | none =>
          rw [hl] at ih
          subst ih
          exact ⟨[], [], rfl, by simp, by simp⟩
      | some y =>
          rw [hl] at ih
          by_cases hlt : version y < version x
          · simp only [higher, hlt, if_true]
            exact ⟨l, [], rfl, fun z hz => (ih.le hz).trans_lt hlt, by simp⟩
          · simp only [higher, hlt, if_false]
            obtain ⟨before, after, rfl, hb, ha⟩ := ih
            refine ⟨before, after ++ [x], by simp, hb, fun z hz => ?_⟩
            rcases List.mem_append.mp hz with hz | hz
            · exact ha z hz
            · rw [List.mem_singleton.mp hz]
              exact not_lt.mp hlt

theorem firstOfMaximum_cons (version : α → ν) (x : α) (l : List α) : ∃ y, firstOfMaximum version (x :: l) = some y := by
  cases h : firstOfMaximum version (x :: l) with
  | some y => exact ⟨y, rfl⟩
  | none =>
      have hspec := firstOfMaximum_spec version (x :: l)
      rw [h] at hspec
      exact absurd hspec (List.cons_ne_nil x l)

theorem isFirstOfMaximum (h : firstOfMaximum version l = some x) : IsFirstOfMaximum version l x := by
  have hspec := firstOfMaximum_spec version l
  rw [h] at hspec
  exact hspec

end FirstOfMaximum

section Pages

variable (version)

def countBelow (c v : ν) (l : List α) : Nat := l.countP (fun x => c < version x ∧ version x < v)

def countUpTo (c v : ν) (l : List α) : Nat := l.countP (fun x => c < version x ∧ version x ≤ v)

/-- With the elements above c in pages of n by their versions, no version is
divided between two pages. -/
def RunsUncut (c : ν) (n : Nat) (l : List α) : Prop :=
  ∀ v k, countBelow version c v l < k * n → countUpTo version c v l ≤ k * n

variable {version} {b c v : ν} {n : Nat}

theorem countBelow_add (l : List α) (hcb : c ≤ b) (hbv : b < v) :
    countBelow version c v l = countUpTo version c b l + countBelow version b v l := by
  induction l with
  | nil => rfl
  | cons x l ih =>
      simp only [countBelow, countUpTo, List.countP_cons] at ih ⊢
      rw [ih]
      by_cases hx : version x ≤ b
      · simp [hx, not_lt.mpr hx, hx.trans_lt hbv]
        omega
      · simp [hx, not_le.mp hx, hcb.trans_lt (not_le.mp hx)]
        omega

theorem countUpTo_add (l : List α) (hcb : c ≤ b) (hbv : b ≤ v) :
    countUpTo version c v l = countUpTo version c b l + countUpTo version b v l := by
  induction l with
  | nil => rfl
  | cons x l ih =>
      simp only [countUpTo, List.countP_cons] at ih ⊢
      rw [ih]
      by_cases hx : version x ≤ b
      · simp [hx, not_lt.mpr hx, hx.trans hbv]
        omega
      · simp [hx, not_le.mp hx, hcb.trans_lt (not_le.mp hx)]
        omega

theorem countUpTo_eq_zero (l : List α) (h : v ≤ c) : countUpTo version c v l = 0 := by
  rw [countUpTo, List.countP_eq_zero]
  intro x _
  simpa using fun hx => h.trans_lt hx

theorem countUpTo_le_length (version : α → ν) (c v : ν) (l : List α) :
    countUpTo version c v l ≤ (l.filter (fun x => c < version x)).length := by
  rw [countUpTo, ← List.countP_eq_length_filter]
  apply List.countP_mono_left
  intro x _
  simpa using fun hx _ => hx

theorem countUpTo_mono (c : ν) (l : List α) (h : b ≤ v) : countUpTo version c b l ≤ countUpTo version c v l := by
  apply List.countP_mono_left
  intro x _
  simpa using fun hc hb => ⟨hc, hb.trans h⟩

theorem runsUncut_of_length_le (h : (l.filter (fun x => c < version x)).length ≤ n) : RunsUncut version c n l := by
  intro v k hk
  have hle := (countUpTo_le_length version c v l).trans h
  cases k with
  | zero => omega
  | succ k => exact hle.trans (Nat.le_mul_of_pos_left n k.succ_pos)

theorem runsUncut_page (hcb : c ≤ b) (hbelow : countBelow version c b l < n) (hfull : n ≤ countUpTo version c b l) :
    RunsUncut version c n l ↔ countUpTo version c b l = n ∧ RunsUncut version b n l := by
  constructor
  · intro h
    have hn : countUpTo version c b l = n := by
      apply le_antisymm _ hfull
      simpa using h b 1 (by simpa using hbelow)
    refine ⟨hn, fun v k hk => ?_⟩
    rcases le_or_gt v b with hv | hv
    · simp [countUpTo_eq_zero l hv]
    · have hnext := h v (k + 1)
      rw [countBelow_add l hcb hv, countUpTo_add l hcb hv.le, hn, Nat.succ_mul] at hnext
      have := hnext (by omega)
      omega
  · rintro ⟨hn, h⟩ v k hk
    rcases le_or_gt v b with hv | hv
    · have hle := (countUpTo_mono c l hv).trans_eq hn
      cases k with
      | zero => omega
      | succ k => exact hle.trans (Nat.le_mul_of_pos_left n k.succ_pos)
    · rw [countBelow_add l hcb hv] at hk
      rw [countUpTo_add l hcb hv.le]
      cases k with
      | zero => omega
      | succ k =>
          rw [Nat.succ_mul] at hk ⊢
          have hnext := h v k (by omega)
          omega

end Pages

end BeaconNode.VersionedLog
