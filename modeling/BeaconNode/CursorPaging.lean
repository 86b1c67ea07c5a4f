import BeaconNode.Registry
import BeaconNode.VersionedLog
import Mathlib.Data.List.Perm.Subperm

namespace BeaconNode.CursorPaging

open Words TextStream Records Registry VersionedLog

/-- A client that pages through a registry: it asks for the entries after its
cursor, moves the cursor to the revision of the last entry of the page, and
ends at an empty page. Each call may sort in its own way. The result is none
when the given number of calls is not enough. -/
def pullPages (registry : AgentRegistry) (limit : UInt64) :
    Nat → (Nat → RevisionSort) → UInt64 → Option (List AgentRecord)
  | 0, _, _ => none
  | calls + 1, sorts, cursor =>
      let page := registry.entriesAfterRevision (sorts 0) cursor limit
      match page.getLast? with
      | none => some []
      | some last =>
          (pullPages registry limit calls (fun n => sorts (n + 1)) last.revision).map (page ++ ·)

def entriesAbove (registry : AgentRegistry) (cursor : UInt64) : List AgentRecord :=
  registry.records.filter (fun r => cursor < r.revision)

variable {registry : AgentRegistry} {limit cursor : UInt64} {S : RevisionSort} {last : AgentRecord}

theorem pullPages_mono {calls more : Nat} {sorts : Nat → RevisionSort} {visited : List AgentRecord}
    (hle : calls ≤ more) (h : pullPages registry limit calls sorts cursor = some visited) :
    pullPages registry limit more sorts cursor = some visited := by
  induction calls generalizing more sorts cursor visited with
  | zero => cases h
  | succ calls ih =>
      obtain ⟨more, rfl⟩ : ∃ m, more = m + 1 := ⟨more - 1, by omega⟩
      simp only [pullPages] at h ⊢
      cases hpage : (registry.entriesAfterRevision (sorts 0) cursor limit).getLast? with
      | none => simpa only [hpage] using h
      | some last =>
          simp only [hpage] at h ⊢
          obtain ⟨rest, hrest, rfl⟩ := Option.map_eq_some_iff.mp h
          rw [ih (by omega) hrest]
          rfl

theorem pullPages_unique {calls others : Nat} {sorts : Nat → RevisionSort} {visited seen : List AgentRecord}
    (h : pullPages registry limit calls sorts cursor = some visited)
    (k : pullPages registry limit others sorts cursor = some seen) : visited = seen := by
  have hmax := pullPages_mono (le_max_left calls others) h
  rw [pullPages_mono (le_max_right calls others) k, Option.some.injEq] at hmax
  exact hmax.symm

theorem entriesAfterRevision_eq (S : RevisionSort) (cursor : UInt64) (hlimit : 0 < limit) :
    registry.entriesAfterRevision S cursor limit = (S.sort (entriesAbove registry cursor)).take limit.toNat := by
  simp only [AgentRegistry.entriesAfterRevision, hlimit, true_and, entriesAbove]
  split
  next => rfl
  next h => exact (List.take_of_length_le (not_lt.mp h)).symm

/-- What a page says about the entries it was taken from. -/
structure IsPage (registry : AgentRegistry) (cursor limit : UInt64) (page rest : List AgentRecord)
    (last : AgentRecord) : Prop where
  perm : (page ++ rest).Perm (entriesAbove registry cursor)
  mem : last ∈ page
  le : ∀ r ∈ page, r.revision ≤ last.revision
  ge : ∀ r ∈ rest, last.revision ≤ r.revision
  sorted : page.Pairwise (fun r s => r.revision ≤ s.revision)
  length_le : page.length ≤ limit.toNat
  full : rest ≠ [] → page.length = limit.toNat

theorem isPage (hlimit : 0 < limit) (h : (registry.entriesAfterRevision S cursor limit).getLast? = some last) :
    IsPage registry cursor limit (registry.entriesAfterRevision S cursor limit)
      ((S.sort (entriesAbove registry cursor)).drop limit.toNat) last := by
  rw [entriesAfterRevision_eq S cursor hlimit] at h ⊢
  have hperm := S.perm (entriesAbove registry cursor)
  have hsorted := S.sorted (entriesAbove registry cursor)
  generalize S.sort (entriesAbove registry cursor) = entries at *
  rw [← List.take_append_drop limit.toNat entries, List.pairwise_append] at hsorted
  obtain ⟨hpage, -, hcross⟩ := hsorted
  obtain ⟨init, hinit⟩ := List.getLast?_eq_some_iff.mp h
  have hmem : last ∈ entries.take limit.toNat := by
    rw [hinit]
    simp
  exact {
    perm := by rwa [List.take_append_drop]
    mem := hmem
    le := by
      intro r hr
      rw [hinit] at hpage hr
      rcases List.mem_append.mp hr with hr | hr
      · exact (List.pairwise_append.mp hpage).2.2 r hr last (by simp)
      · rw [List.mem_singleton.mp hr]
    ge := fun r hr => hcross last hmem r hr
    sorted := hpage
    length_le := by
      rw [List.length_take]
      exact min_le_left _ _
    full := by
      intro hne
      have hlt : limit.toNat < entries.length := by
        by_contra hle
        exact hne (List.drop_of_length_le (not_lt.mp hle))
      rw [List.length_take, min_eq_left hlt.le] }

variable {page rest visited : List AgentRecord}

theorem IsPage.cursor_lt (h : IsPage registry cursor limit page rest last) {r : AgentRecord} (hr : r ∈ page) :
    cursor < r.revision := by
  have habove : r ∈ entriesAbove registry cursor := h.perm.mem_iff.mp (List.mem_append_left rest hr)
  simpa using (List.mem_filter.mp habove).2

theorem entriesAbove_above {c : UInt64} (h : cursor ≤ c) :
    (entriesAbove registry cursor).filter (fun r => c < r.revision) = entriesAbove registry c := by
  rw [entriesAbove, List.filter_filter, entriesAbove]
  congr 1
  funext r
  by_cases hc : c < r.revision
  · simp [hc, h.trans_lt hc]
  · simp [hc]

theorem IsPage.countP_page (h : IsPage registry cursor limit page rest last) :
    page.countP (fun r => r.revision ≤ last.revision) = page.length := by
  rw [List.countP_eq_length]
  intro r hr
  simpa using h.le r hr

theorem IsPage.countUpTo_eq (h : IsPage registry cursor limit page rest last) :
    countUpTo AgentRecord.revision cursor last.revision registry.records =
      page.length + rest.countP (fun r => r.revision ≤ last.revision) := by
  rw [← h.countP_page, ← List.countP_append, h.perm.countP_eq, entriesAbove, List.countP_filter, countUpTo]
  congr 1
  funext r
  simp [Bool.and_comm]

theorem IsPage.countBelow_lt (h : IsPage registry cursor limit page rest last) :
    countBelow AgentRecord.revision cursor last.revision registry.records < page.length := by
  have heq : countBelow AgentRecord.revision cursor last.revision registry.records =
      (page ++ rest).countP (fun r => r.revision < last.revision) := by
    rw [h.perm.countP_eq, entriesAbove, List.countP_filter, countBelow]
    congr 1
    funext r
    simp [Bool.and_comm]
  have hrest : rest.countP (fun r => r.revision < last.revision) = 0 := by
    rw [List.countP_eq_zero]
    intro r hr
    simpa using h.ge r hr
  rw [heq, List.countP_append, hrest, Nat.add_zero]
  apply lt_of_le_of_ne List.countP_le_length
  intro hall
  rw [List.countP_eq_length] at hall
  simpa using hall last h.mem

theorem IsPage.runsUncut_iff (h : IsPage registry cursor limit page rest last) :
    RunsUncut AgentRecord.revision cursor limit.toNat registry.records ↔
      countUpTo AgentRecord.revision cursor last.revision registry.records = page.length ∧
        RunsUncut AgentRecord.revision last.revision limit.toNat registry.records := by
  have hle : cursor ≤ last.revision := (h.cursor_lt h.mem).le
  cases hrest : rest with
  | nil =>
      -- the last page: nothing is left behind it
      have hlength : (entriesAbove registry cursor).length = page.length := by
        simpa [hrest] using h.perm.length_eq.symm
      have hup := h.countUpTo_eq
      rw [hrest, List.countP_nil, Nat.add_zero] at hup
      have hsub : (entriesAbove registry last.revision).length ≤ (entriesAbove registry cursor).length := by
        rw [← entriesAbove_above hle]
        exact List.length_filter_le _ _
      constructor
      · intro _
        exact ⟨hup, runsUncut_of_length_le ((hsub.trans_eq hlength).trans h.length_le)⟩
      · intro _
        exact runsUncut_of_length_le (hlength.le.trans h.length_le)
  | cons r rs =>
      have hfull : page.length = limit.toNat := h.full (by simp [hrest])
      rw [hfull]
      apply runsUncut_page hle
      · rw [← hfull]
        exact h.countBelow_lt
      · rw [← hfull, h.countUpTo_eq]
        exact Nat.le_add_right _ _

/-- Pages that follow hold higher revisions only, so nothing makes up for an
entry of the last revision that the page has left out. -/
theorem IsPage.perm_iff (h : IsPage registry cursor limit page rest last)
    (hvisited : ∀ r ∈ visited, last.revision < r.revision) :
    (page ++ visited).Perm (entriesAbove registry cursor) ↔
      countUpTo AgentRecord.revision cursor last.revision registry.records = page.length ∧
        visited.Perm (entriesAbove registry last.revision) := by
  have hle : cursor ≤ last.revision := (h.cursor_lt h.mem).le
  have hpage : page.filter (fun r => last.revision < r.revision) = [] := by
    rw [List.filter_eq_nil_iff]
    intro r hr
    simpa using h.le r hr
  constructor
  · intro hperm
    have hnext := hperm.filter (fun r => last.revision < r.revision)
    rw [List.filter_append, hpage, List.nil_append, entriesAbove_above hle] at hnext
    rw [List.filter_eq_self.mpr (fun r hr => by simpa using hvisited r hr)] at hnext
    refine ⟨?_, hnext⟩
    have hcount := hperm.countP_eq (fun r => r.revision ≤ last.revision)
    have hnone : visited.countP (fun r => r.revision ≤ last.revision) = 0 := by
      rw [List.countP_eq_zero]
      intro r hr
      simpa using hvisited r hr
    rw [List.countP_append, hnone, h.countP_page, ← h.perm.countP_eq, List.countP_append, h.countP_page] at hcount
    rw [h.countUpTo_eq]
    omega
  · rintro ⟨hcount, hnext⟩
    -- no entry of the last revision is left, so what is left lies above it
    rw [h.countUpTo_eq] at hcount
    have hzero : rest.countP (fun r => r.revision ≤ last.revision) = 0 := by omega
    rw [List.countP_eq_zero] at hzero
    have hrest : rest.filter (fun r => last.revision < r.revision) = rest := by
      rw [List.filter_eq_self]
      intro r hr
      simpa using hzero r hr
    have hleft := h.perm.filter (fun r => last.revision < r.revision)
    rw [List.filter_append, hpage, List.nil_append, hrest, entriesAbove_above hle] at hleft
    exact ((hnext.trans hleft.symm).append_left page).trans h.perm

theorem IsPage.fewer (h : IsPage registry cursor limit page rest last) :
    (entriesAbove registry last.revision).length < (entriesAbove registry cursor).length := by
  have hle : cursor ≤ last.revision := (h.cursor_lt h.mem).le
  have hmem : last ∈ entriesAbove registry cursor := h.perm.mem_iff.mp (List.mem_append_left rest h.mem)
  rw [← entriesAbove_above hle, ← List.countP_eq_length_filter]
  apply lt_of_le_of_ne List.countP_le_length
  intro hall
  rw [List.countP_eq_length] at hall
  simpa using hall last hmem

theorem pullPages_spec (hlimit : 0 < limit) (calls : Nat) (sorts : Nat → RevisionSort) (cursor : UInt64)
    (hcalls : (entriesAbove registry cursor).length < calls) :
    ∃ visited, pullPages registry limit calls sorts cursor = some visited ∧
      (∀ r ∈ visited, cursor < r.revision) ∧
      visited.Pairwise (fun r s => r.revision ≤ s.revision) ∧
      (visited.Perm (entriesAbove registry cursor) ↔
        RunsUncut AgentRecord.revision cursor limit.toNat registry.records) := by
  induction calls generalizing sorts cursor with
  | zero => omega
  | succ calls ih =>
      simp only [pullPages]
      cases hlast : (registry.entriesAfterRevision (sorts 0) cursor limit).getLast? with
      | none =>
          have hempty : entriesAbove registry cursor = [] := by
            rw [List.getLast?_eq_none_iff, entriesAfterRevision_eq _ _ hlimit, List.take_eq_nil_iff] at hlast
            have hlimit : limit.toNat ≠ 0 := by
              rw [UInt64.lt_iff_toNat_lt] at hlimit
              exact hlimit.ne'
            have hsort := hlast.resolve_left hlimit
            exact List.Perm.nil_eq (hsort ▸ (sorts 0).perm (entriesAbove registry cursor)) |>.symm
          have hruns : RunsUncut AgentRecord.revision cursor limit.toNat registry.records :=
            runsUncut_of_length_le (by
              change (entriesAbove registry cursor).length ≤ limit.toNat
              simp [hempty])
          exact ⟨[], rfl, by simp, List.Pairwise.nil, by simp [hempty, hruns]⟩
      | some last =>
          have hpage := isPage hlimit hlast
          obtain ⟨visited, hvisited, habove, hsorted, hiff⟩ := ih (fun n => sorts (n + 1)) last.revision
            (by have := hpage.fewer; omega)
          have hle : cursor ≤ last.revision := (hpage.cursor_lt hpage.mem).le
          refine ⟨_, by simp only [hvisited]; rfl, ?_, ?_, ?_⟩
          · intro r hr
            rcases List.mem_append.mp hr with hr | hr
            · exact hpage.cursor_lt hr
            · exact hle.trans_lt (habove r hr)
          · rw [List.pairwise_append]
            exact ⟨hpage.sorted, hsorted, fun r hr s hs => (hpage.le r hr).trans (habove s hs).le⟩
          · rw [hpage.perm_iff habove, hpage.runsUncut_iff, hiff]

/-- Paging by revision visits each later entry once, in order, just when no
page boundary falls between two entries of one revision. -/
theorem paging_complete_iff (registry : AgentRegistry) (cursor limit : UInt64) (hlimit : 1 ≤ limit)
    (sorts : Nat → RevisionSort) :
    (∃ visited, (∃ calls, pullPages registry limit calls sorts cursor = some visited) ∧
      visited.Perm (registry.records.filter (fun r => cursor < r.revision)) ∧
      visited.Pairwise (fun r s => r.revision ≤ s.revision)) ↔
        RunsUncut AgentRecord.revision cursor limit.toNat registry.records := by
  have hpos : 0 < limit := by
    rw [UInt64.lt_iff_toNat_lt]
    rw [UInt64.le_iff_toNat_le] at hlimit
    exact hlimit
  obtain ⟨visited, hvisited, -, hsorted, hiff⟩ :=
    pullPages_spec hpos ((entriesAbove registry cursor).length + 1) sorts cursor (Nat.lt_succ_self _)
  constructor
  · rintro ⟨other, ⟨calls, hcalls⟩, hperm, -⟩
    rw [← hiff, pullPages_unique hvisited hcalls]
    exact hperm
  · intro h
    exact ⟨visited, ⟨_, hvisited⟩, hiff.mpr h, hsorted⟩

def fourAgents : AgentRegistry :=
  { records := [{ agentId := ascii "c", revision := 3, expiresAt := 0 },
      { agentId := ascii "a", revision := 1, expiresAt := 0 }, { agentId := ascii "d", revision := 2, expiresAt := 0 },
      { agentId := ascii "b", revision := 1, expiresAt := 0 }] }

theorem paging_complete_fourAgents :
    ∃ visited, (∃ calls, pullPages fourAgents 2 calls (fun _ => insertionRevisionSort) 0 = some visited) ∧
      visited.Perm (fourAgents.records.filter (fun r => 0 < r.revision)) ∧
      visited.Pairwise (fun r s => r.revision ≤ s.revision) := by
  have hsecond : RunsUncut AgentRecord.revision 1 (2 : UInt64).toNat fourAgents.records := by
    apply runsUncut_of_length_le
    decide
  have hruns : RunsUncut AgentRecord.revision 0 (2 : UInt64).toNat fourAgents.records :=
    (runsUncut_page (by decide) (by decide) (by decide)).mpr ⟨by decide, hsecond⟩
  exact (paging_complete_iff fourAgents 0 2 (by decide) (fun _ => insertionRevisionSort)).mpr hruns

def twoAgents : AgentRegistry :=
  { records := [{ agentId := ascii "a", revision := 1, expiresAt := 0 },
      { agentId := ascii "b", revision := 1, expiresAt := 0 }] }

/-- In pages of one entry the second agent is never seen. -/
theorem paging_skips_equal_revision :
    ¬ ∃ visited, (∃ calls, pullPages twoAgents 1 calls (fun _ => insertionRevisionSort) 0 = some visited) ∧
      visited.Perm (twoAgents.records.filter (fun r => 0 < r.revision)) ∧
      visited.Pairwise (fun r s => r.revision ≤ s.revision) := by
  rintro ⟨visited, ⟨calls, hcalls⟩, hperm, -⟩
  have hrun : pullPages twoAgents 1 2 (fun _ => insertionRevisionSort) 0 =
      some [{ agentId := ascii "a", revision := 1, expiresAt := 0 }] := by decide
  have hlength := hperm.length_eq
  rw [pullPages_unique hcalls hrun] at hlength
  exact absurd hlength (by decide)

end BeaconNode.CursorPaging
