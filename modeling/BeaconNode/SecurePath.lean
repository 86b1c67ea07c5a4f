import BeaconNode.Segments
import BeaconNode.TextStream

namespace BeaconNode.SecurePath

open Words TextStream Segments

def slash : UInt8 := 47
def backslash : UInt8 := 92

/-- Where a path leads, as std::filesystem finds it; an error comes with its
message. The links of the directories are the same in every call. -/
structure PathOps where
  absolute : Bytes → Bytes
  weaklyCanonical : Bytes → Except Bytes Bytes

def joinPath (base path : Bytes) : Bytes :=
  if path.head? = some slash then path
  else if base = [] ∨ base.getLast? = some slash then base ++ path
  else base ++ slash :: path

/-- The check on the two strings. -/
def traverses (base resolved : Bytes) : Bool :=
  resolved.length < base.length || resolved.take base.length ≠ base ||
    (base.length < resolved.length && resolved.getD base.length 0 ≠ slash &&
      resolved.getD base.length 0 ≠ backslash)

/-- The persistence service and the identity store have a copy each. -/
def resolveSecurePath (paths : PathOps) (base userPath : Bytes) : Except Bytes Bytes :=
  match paths.weaklyCanonical (paths.absolute base) with
  | .error message =>
      .error (ascii "Cannot resolve base path: " ++ base ++ ascii " (" ++ message ++ ascii ")")
  | .ok baseAbs =>
      match paths.weaklyCanonical (joinPath baseAbs userPath) with
      | .error message =>
          .error (ascii "Cannot resolve path: " ++ userPath ++ ascii " (" ++ message ++ ascii ")")
      | .ok resolved =>
          if traverses baseAbs resolved then .error (ascii "Path traversal detected: " ++ resolved)
          else .ok resolved

structure NormalPath where
  components : List Bytes
  normal : ∀ c ∈ components, c ≠ [] ∧ slash ∉ c ∧ c ≠ ascii "." ∧ c ≠ ascii ".."

def NormalPath.string (path : NormalPath) : Bytes := slash :: [slash].intercalate path.components

variable {base resolved : NormalPath}

theorem NormalPath.slash_not_mem (path : NormalPath) : ∀ c ∈ path.components, slash ∉ c :=
  fun c hc => (path.normal c hc).2.1

theorem string_root {path : NormalPath} (h : path.components = []) : path.string = [slash] := by
  rw [NormalPath.string, h]
  rfl

theorem string_text {path : NormalPath} (h : path.components ≠ []) : path.string = text slash path.components :=
  cons_intercalate h

theorem traverses_append (base rest : Bytes) :
    traverses base (base ++ rest) = rest.head?.any (fun c => c ≠ slash && c ≠ backslash) := by
  cases rest with
  | nil => simp [traverses]
  | cons c rest => simp [traverses]

theorem not_traverses_iff (base resolved : Bytes) :
    traverses base resolved = false ↔
      (∃ rest, Bounded slash rest ∧ resolved = base ++ rest) ∨ ∃ rest, resolved = base ++ backslash :: rest := by
  constructor
  · intro h
    have hprefix : base <+: resolved := by
      rw [List.prefix_iff_eq_take]
      by_contra hne
      simp [traverses, Ne.symm hne] at h
    obtain ⟨rest, rfl⟩ := hprefix
    rw [traverses_append] at h
    cases rest with
    | nil => exact Or.inl ⟨[], Or.inl rfl, rfl⟩
    | cons c rest =>
        by_cases hc : c = slash
        · exact Or.inl ⟨c :: rest, Or.inr ⟨rest, by rw [hc]⟩, rfl⟩
        · have hb : c = backslash := by simpa [hc] using h
          exact Or.inr ⟨rest, by rw [hb]⟩
  · rintro (⟨rest, rfl | ⟨more, rfl⟩, rfl⟩ | ⟨rest, rfl⟩)
    · rw [traverses_append]
      rfl
    · rw [traverses_append]
      rfl
    · rw [traverses_append]
      rfl

/-- The root is the base and the path is another one that does not begin with
a backslash, or the path goes on with a backslash where the base ends. -/
def Misjudged (base resolved : List Bytes) : Prop :=
  (base = [] ∧ ∃ c components, resolved = c :: components ∧ c.head? ≠ some backslash) ∨
    ∃ parents name tail components,
      base = parents ++ [name] ∧ resolved = parents ++ (name ++ backslash :: tail) :: components

theorem misjudged_root {resolved : List Bytes} :
    Misjudged [] resolved ↔ ∃ c components, resolved = c :: components ∧ c.head? ≠ some backslash := by
  constructor
  · rintro (⟨-, h⟩ | ⟨parents, name, tail, components, h, -⟩)
    · exact h
    · simp at h
  · exact fun h => Or.inl ⟨rfl, h⟩

theorem misjudged_below {parents resolved : List Bytes} {name : Bytes} :
    Misjudged (parents ++ [name]) resolved ↔
      ∃ tail components, resolved = parents ++ (name ++ backslash :: tail) :: components := by
  constructor
  · rintro (⟨h, -⟩ | ⟨parents', name', tail, components, h, hr⟩)
    · simp at h
    · obtain ⟨rfl, hname⟩ := List.append_inj' h rfl
      obtain rfl := (List.cons.inj hname).1
      exact ⟨tail, components, hr⟩
  · rintro ⟨tail, components, hr⟩
    exact Or.inr ⟨parents, name, tail, components, rfl, hr⟩

/-- Below the root nothing is let through but the root itself and names that
begin with a backslash. -/
theorem not_traverses_root (h : base.components = []) :
    traverses base.string resolved.string = false ↔ ¬ Misjudged base.components resolved.components := by
  rw [h, misjudged_root, string_root h]
  cases hr : resolved.components with
  | nil =>
      rw [string_root hr]
      simp [traverses]
  | cons c components =>
      obtain ⟨hne, hslash, -⟩ := resolved.normal c (by simp [hr])
      have hstring : resolved.string = [slash] ++ (c ++ text slash components) := by
        rw [string_text (by simp [hr]), hr, text_cons]
        rfl
      rw [hstring, traverses_append]
      cases c with
      | nil => exact absurd rfl hne
      | cons d name =>
          have hd : d ≠ slash := fun hd => hslash (by simp [hd])
          simp [hd]

theorem not_traverses_below {parents : List Bytes} {name : Bytes} (h : base.components = parents ++ [name]) :
    traverses base.string resolved.string = false ↔
      base.components <+: resolved.components ∨ Misjudged base.components resolved.components := by
  have hbase : base.string = text slash base.components := string_text (by simp [h])
  have hparents : ∀ c ∈ parents, slash ∉ c := fun c hc => base.slash_not_mem c (by simp [h, hc])
  have hname : slash ∉ name := base.slash_not_mem name (by simp [h])
  by_cases hr : resolved.components = []
  · -- the root is shorter than every other path
    have hne : name ≠ [] := (base.normal name (by simp [h])).1
    have hlength : 2 ≤ base.string.length := by
      have hpos := List.length_pos_iff.mpr hne
      rw [hbase, h, text_append, text_cons]
      simp only [List.length_append, List.length_cons]
      omega
    have htraverses : traverses base.string resolved.string = true := by
      rw [string_root hr, traverses]
      simp [show 1 < base.string.length from hlength]
    simp [htraverses, hr, h, misjudged_below]
  · rw [not_traverses_iff, string_text hr, hbase, ← prefix_iff_text base.slash_not_mem resolved.slash_not_mem, h,
      longer_segment_iff (by decide) hparents hname resolved.slash_not_mem, misjudged_below]

/-- The check lets through what is below the base, and nothing else, exactly
where it does not misjudge. -/
theorem confinement_exact_iff (paths : PathOps) (base resolved : NormalPath) (directory userPath : Bytes)
    (hbase : paths.weaklyCanonical (paths.absolute directory) = .ok base.string)
    (hresolved : paths.weaklyCanonical (joinPath base.string userPath) = .ok resolved.string) :
    ((resolveSecurePath paths directory userPath = .ok resolved.string) ↔
        base.components <+: resolved.components) ↔
      ¬ Misjudged base.components resolved.components := by
  have haccepted : resolveSecurePath paths directory userPath = .ok resolved.string ↔
      traverses base.string resolved.string = false := by
    simp only [resolveSecurePath, hbase, hresolved]
    cases traverses base.string resolved.string with
    | true => simp
    | false => simp
  rw [haccepted]
  rcases List.eq_nil_or_concat' base.components with h | ⟨parents, name, h⟩
  · rw [not_traverses_root h, h]
    simp
  · have hexclusive : Misjudged base.components resolved.components → ¬ base.components <+: resolved.components := by
      rw [h, misjudged_below]
      rintro ⟨tail, components, hr⟩ hprefix
      rw [hr, List.prefix_append_right_inj, List.cons_prefix_cons] at hprefix
      simp at hprefix
    rw [not_traverses_below h]
    constructor
    · intro hexact hmisjudged
      exact hexclusive hmisjudged (hexact.mp (Or.inr hmisjudged))
    · intro hjudged
      exact or_iff_left hjudged

def plainPaths : PathOps := ⟨joinPath (ascii "/srv"), .ok⟩

def rootPath : NormalPath := ⟨[], by simp⟩
def etcPath : NormalPath := ⟨[ascii "etc"], by decide⟩
def dataPath : NormalPath := ⟨[ascii "srv", ascii "data"], by decide⟩
def databasePath : NormalPath := ⟨[ascii "srv", ascii "database"], by decide⟩
def backslashPath : NormalPath := ⟨[ascii "srv", ascii "data\\old"], by decide⟩

theorem confinement_exact_sibling :
    resolveSecurePath plainPaths (ascii "data") databasePath.string =
        .error (ascii "Path traversal detected: /srv/database") ∧
      ¬ Misjudged dataPath.components databasePath.components := by
  have h := confinement_exact_iff plainPaths dataPath databasePath (ascii "data") databasePath.string rfl rfl
  refine ⟨rfl, h.mp ?_⟩
  decide

/-- With the root as base a file of the root is turned away, and a sibling of
the base whose name goes on with a backslash is let through. -/
theorem confinement_misjudged :
    ¬ (resolveSecurePath plainPaths rootPath.string (ascii "etc") = .ok etcPath.string ↔
        rootPath.components <+: etcPath.components) ∧
      ¬ (resolveSecurePath plainPaths (ascii "data") backslashPath.string = .ok backslashPath.string ↔
        dataPath.components <+: backslashPath.components) := by
  decide

end BeaconNode.SecurePath
