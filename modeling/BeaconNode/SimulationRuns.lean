import BeaconNode.ChurnSimulation
import BeaconNode.PythonIdentity
import BeaconNode.PythonText
import Mathlib.Algebra.Field.Rat
import Mathlib.Algebra.Order.Field.Basic
import Mathlib.Algebra.Order.Ring.Rat
import Mathlib.Data.Fintype.Basic
import Mathlib.Data.Finset.Union
import Mathlib.Logic.Function.Basic

namespace BeaconNode.SimulationRuns

open KeyedList PythonIdentity ChurnSimulation

/-- A draw of randint(4, 12). -/
abbrev Ttl := {t : Int // 4 ≤ t ∧ t ≤ 12}

abbrev Pair (nodes : Nat) := {p : Fin nodes × Fin nodes // p.1 ≠ p.2}

/-- What is drawn in a round: for each node whether an agent joins there and
with what time to live, and where there are two nodes to draw, the sample of
each exchange. -/
structure RoundDraws (nodes : Nat) where
  joins : Fin nodes → Option Ttl
  samples : 2 ≤ nodes → Fin (nodes * 2) → Pair nodes

inductive SimError
  | zeroDivision
  | valueError
  deriving DecidableEq

structure Simulation (nodes : Nat) where
  cluster : Fin nodes → SimNode Str := fun _ => ⟨[], List.nodup_nil⟩
  revision : Nat := 0

def agentName (index : Nat) : Str := str "agent-" ++ Nat.toDigits 10 index

def newAgentName (revision : Nat) : Str := str "agent-new-" ++ Nat.toDigits 10 revision

def tick (node : SimNode Str) : SimNode Str where
  registry := (node.registry.map (fun a => { a with ttl := a.ttl - 1 })).filter (fun a => 0 < a.ttl)
  unique := by
    refine List.Nodup.sublist (List.filter_sublist.map _) ?_
    have hunique := node.unique
    rwa [List.map_map]

section

variable {nodes : Nat}

def setNode (s : Simulation nodes) (i : Fin nodes) (node : SimNode Str) : Simulation nodes :=
  { s with cluster := Function.update s.cluster i node }

def join (s : Simulation nodes) (i : Fin nodes) (agentId : Str) (ttl : Ttl) : Simulation nodes :=
  { setNode s i (register (s.cluster i) ⟨agentId, (s.revision + 1 : Nat), ttl⟩) with revision := s.revision + 1 }

/-- The index of the agent is taken modulo the number of nodes. -/
def populate (s : Simulation nodes) (p : Ttl × Nat) : Except SimError (Simulation nodes) :=
  if h : 0 < nodes then .ok (join s ⟨p.2 % nodes, Nat.mod_lt _ h⟩ (agentName p.2) p.1) else .error .zeroDivision

def nodeTurn (joins : Fin nodes → Option Ttl) (s : Simulation nodes) (i : Fin nodes) : Simulation nodes :=
  let s := setNode s i (tick (s.cluster i))
  match joins i with
  | none => s
  | some ttl => join s i (newAgentName (s.revision + 1)) ttl

def gossip (s : Simulation nodes) (p : Pair nodes) : Simulation nodes :=
  let result := gossipRound (s.cluster p.1.1) (s.cluster p.1.2) 32
  setNode (setNode s p.1.1 result.1) p.1.2 result.2

/-- The sample of two nodes fails where there are fewer. -/
def exchange (draws : RoundDraws nodes) (s : Simulation nodes) (k : Fin (nodes * 2)) :
    Except SimError (Simulation nodes) :=
  if h : 2 ≤ nodes then .ok (gossip s (draws.samples h k)) else .error .valueError

def playRound (s : Simulation nodes) (draws : RoundDraws nodes) : Except SimError (Simulation nodes) :=
  (List.finRange (nodes * 2)).foldlM (exchange draws) ((List.finRange nodes).foldl (nodeTurn draws.joins) s)

def simulate (ttls : List Ttl) (rounds : List (RoundDraws nodes)) : Except SimError (Simulation nodes) := do
  let s ← ttls.zipIdx.foldlM populate {}
  rounds.foldlM playRound s

def liveSet (s : Simulation nodes) (i : Fin nodes) : Finset Str :=
  ((s.cluster i).registry.map SimAgent.agentId).toFinset

def union (s : Simulation nodes) : Finset Str := Finset.univ.biUnion (liveSet s)

def intersection (s : Simulation nodes) : Finset Str := (union s).filter (fun a => ∀ i, a ∈ liveSet s i)

def liveAgents (s : Simulation nodes) : Nat := (union s).card

def convergence (s : Simulation nodes) : ℚ := if union s = ∅ then 1 else (intersection s).card / (union s).card

structure Report where
  nodes : Nat
  rounds : Nat
  liveAgents : Nat
  avgRegistrySize : ℚ
  convergence : ℚ

def report (rounds : Nat) (s : Simulation nodes) : Report where
  nodes := nodes
  rounds := rounds
  liveAgents := liveAgents s
  avgRegistrySize := (((List.finRange nodes).map fun i => (s.cluster i).registry.length).sum : ℚ) / nodes
  convergence := convergence s

def runSimulation (ttls : List Ttl) (rounds : List (RoundDraws nodes)) : Except SimError Report := do
  let s ← simulate ttls rounds
  if nodes = 0 then .error .zeroDivision else pure (report rounds.length s)

def drawn (ttls : List Ttl) (rounds : List (RoundDraws nodes)) : List (Nat × Ttl) :=
  ttls.map (fun ttl => (0, ttl)) ++ (rounds.zipIdx 1).flatMap
    (fun p => (List.finRange nodes).filterMap (fun i => (p.1.joins i).map (fun ttl => (p.2, ttl))))

/-- An agent that joined: in which round, and where. -/
structure Birth (nodes : Nat) where
  agentId : Str
  revision : Nat
  ttl : Ttl
  round : Nat
  node : Fin nodes

def Birth.copy (b : Birth nodes) (clock : Nat) : SimAgent Str := ⟨b.agentId, b.revision, b.ttl + b.round - clock⟩

def Birth.Alive (clock : Nat) (b : Birth nodes) : Prop := (clock : Int) < b.ttl + b.round

def Copy (births : List (Birth nodes)) (clock : Nat) (a : SimAgent Str) : Prop :=
  0 < a.ttl ∧ ∃ b ∈ births, a = b.copy clock

/-- The names that have been given away. -/
def Given (revision : Nat) (agentId : Str) : Prop :=
  (∃ index < revision, agentId = agentName index) ∨ ∃ earlier ≤ revision, agentId = newAgentName earlier

/-- Each node holds copies as old as the rounds it has been through, and an
agent stays where it joined until its time is over. -/
structure Aging (births : List (Birth nodes)) (clock : Fin nodes → Nat) (s : Simulation nodes) : Prop where
  distinct : (births.map Birth.agentId).Nodup
  given : ∀ b ∈ births, Given s.revision b.agentId
  copies : ∀ i, ∀ a ∈ (s.cluster i).registry, Copy births (clock i) a
  home : ∀ b ∈ births, b.Alive (clock b.node) → b.copy (clock b.node) ∈ (s.cluster b.node).registry

end

variable {nodes : Nat} {births : List (Birth nodes)} {clock : Fin nodes → Nat} {s : Simulation nodes} {i : Fin nodes}
  {node other : SimNode Str} {a x : SimAgent Str} {c : Nat} {b : Birth nodes}

theorem toDigits_injective {m n : Nat} (h : Nat.toDigits 10 m = Nat.toDigits 10 n) : m = n := by
  have hread := congrArg (fun digits => Nat.ofDigitChars 10 digits 0) h
  simpa only [Nat.ofDigitChars_ten_toDigits] using hread

theorem agentName_injective {m n : Nat} (h : agentName m = agentName n) : m = n :=
  toDigits_injective (List.append_cancel_left h)

theorem newAgentName_injective {m n : Nat} (h : newAgentName m = newAgentName n) : m = n :=
  toDigits_injective (List.append_cancel_left h)

/-- The two kinds of names differ in the character after the first dash. -/
theorem agentName_ne_newAgentName (m n : Nat) : agentName m ≠ newAgentName n := by
  intro h
  have hsplit : str "agent-new-" = str "agent-" ++ str "new-" := by decide
  rw [agentName, newAgentName, hsplit, List.append_assoc] at h
  have hdigits : Nat.toDigits 10 m = 'n' :: (str "ew-" ++ Nat.toDigits 10 n) := List.append_cancel_left h
  have hmem : 'n' ∈ Nat.toDigits 10 m := by
    rw [hdigits]
    exact List.mem_cons_self
  have hrange := (PythonText.canonical_toDigits m).1 _ hmem
  exact absurd hrange (by decide)

theorem Given.mono {revision later : Nat} {agentId : Str} (h : Given revision agentId) (hl : revision ≤ later) :
    Given later agentId := by
  rcases h with ⟨index, hi, rfl⟩ | ⟨earlier, he, rfl⟩
  · exact Or.inl ⟨index, by omega, rfl⟩
  · exact Or.inr ⟨earlier, by omega, rfl⟩

theorem not_given_next (revision : Nat) : ¬ Given revision (agentName revision) := by
  rintro (⟨index, hi, h⟩ | ⟨earlier, -, h⟩)
  · have heq := agentName_injective h
    omega
  · exact agentName_ne_newAgentName _ _ h

theorem not_given_new (revision : Nat) : ¬ Given revision (newAgentName (revision + 1)) := by
  rintro (⟨index, -, h⟩ | ⟨earlier, he, h⟩)
  · exact agentName_ne_newAgentName _ _ h.symm
  · have heq := newAgentName_injective h
    omega

theorem Birth.copy_ttl_pos (b : Birth nodes) (clock : Nat) : 0 < (b.copy clock).ttl ↔ b.Alive clock := by
  change 0 < (b.ttl : Int) + b.round - clock ↔ (clock : Int) < b.ttl + b.round
  omega

theorem register_fresh (h : ∀ x ∈ node.registry, x.agentId ≠ a.agentId) :
    (register node a).registry = node.registry ++ [a] := by
  have hl : lookup SimAgent.agentId a.agentId node.registry = none := lookup_eq_none.mpr h
  rw [register, hl]
  simp only [assign, put, hl]

theorem mem_register (h : x ∈ (register node a).registry) : x = a ∨ x ∈ node.registry := by
  rw [register] at h
  split at h
  · exact mem_put h
  · split at h
    · exact mem_put h
    · exact Or.inr h

theorem mem_register_of_mem (h : x ∈ node.registry) (ha : a.agentId = x.agentId → a = x) :
    x ∈ (register node a).registry := by
  have hput : x ∈ put SimAgent.agentId a node.registry := by
    apply @lookup_mem _ _ _ SimAgent.agentId x.agentId
    rw [lookup_put]
    split
    next he => rw [ha he.symm]
    next => exact lookup_of_mem node.unique h
  rw [register]
  split
  · exact hput
  · split
    · exact hput
    · exact h

theorem copy_unique (hd : (births.map Birth.agentId).Nodup) (ha : Copy births c a) (hx : Copy births c x)
    (h : a.agentId = x.agentId) : a = x := by
  obtain ⟨-, b, hb, rfl⟩ := ha
  obtain ⟨-, d, hd', rfl⟩ := hx
  rw [List.inj_on_of_nodup_map hd hb hd' h]

theorem foldl_register (hd : (births.map Birth.agentId).Nodup) {agents : List (SimAgent Str)}
    (ha : ∀ a ∈ agents, Copy births c a) (hn : ∀ a ∈ node.registry, Copy births c a) :
    (∀ a ∈ (agents.foldl register node).registry, Copy births c a) ∧
      ∀ x ∈ node.registry, x ∈ (agents.foldl register node).registry := by
  induction agents generalizing node with
  | nil => exact ⟨hn, fun _ hx => hx⟩
  | cons a agents ih =>
      have hfirst : Copy births c a := ha a List.mem_cons_self
      have hnext : ∀ y ∈ (register node a).registry, Copy births c y := by
        intro y hy
        rcases mem_register hy with rfl | hy
        · exact hfirst
        · exact hn y hy
      obtain ⟨hcopies, hkept⟩ := ih (fun y hy => ha y (List.mem_cons_of_mem a hy)) hnext
      exact ⟨hcopies, fun x hx => hkept x (mem_register_of_mem hx (copy_unique hd hfirst (hn x hx)))⟩

theorem mem_delta {limit : Int} (h : a ∈ delta node other limit) : a ∈ node.registry := by
  have hslice : a ∈ sortedByRevision (node.registry.filter (fun s => highestRevision other < s.revision)) := by
    rw [delta, sliceTo] at h
    split at h
    · exact List.mem_of_mem_take h
    · exact List.mem_of_mem_take h
  exact List.mem_of_mem_filter ((List.mem_insertionSort _).mp hslice)

theorem aging_tick (h : Aging births clock s) (i : Fin nodes) :
    Aging births (Function.update clock i (clock i + 1)) (setNode s i (tick (s.cluster i))) := by
  have hcopy (b : Birth nodes) :
      { b.copy (clock i) with ttl := (b.copy (clock i)).ttl - 1 } = b.copy (clock i + 1) := by
    simp only [Birth.copy, SimAgent.mk.injEq, true_and]
    push_cast
    omega
  refine ⟨h.distinct, h.given, fun j a ha => ?_, fun b hb halive => ?_⟩
  · by_cases hj : j = i
    · subst hj
      simp only [setNode, Function.update_self, tick, List.mem_filter, List.mem_map, decide_eq_true_eq] at ha ⊢
      obtain ⟨⟨x, hx, rfl⟩, hpos⟩ := ha
      obtain ⟨-, b, hb, rfl⟩ := h.copies j x hx
      exact ⟨hpos, b, hb, hcopy b⟩
    · simp only [setNode, Function.update_of_ne hj] at ha ⊢
      exact h.copies j a ha
  · by_cases hi : b.node = i
    · subst hi
      rw [Function.update_self] at halive
      have hbefore : b.Alive (clock b.node) := by
        rw [Birth.Alive] at halive ⊢
        push_cast at halive
        omega
      simp only [setNode, Function.update_self, tick, List.mem_filter, List.mem_map, decide_eq_true_eq]
      exact ⟨⟨_, h.home b hb hbefore, hcopy b⟩, (b.copy_ttl_pos _).mpr halive⟩
    · simp only [setNode, Function.update_of_ne hi] at halive ⊢
      exact h.home b hb halive

theorem aging_join (h : Aging births clock s) (i : Fin nodes) {agentId : Str} (hf : ¬ Given s.revision agentId)
    (hg : Given (s.revision + 1) agentId) (ttl : Ttl) :
    Aging (births ++ [⟨agentId, s.revision + 1, ttl, clock i, i⟩]) clock (join s i agentId ttl) := by
  have hnew : (⟨agentId, s.revision + 1, ttl, clock i, i⟩ : Birth nodes).copy (clock i) =
      ⟨agentId, (s.revision + 1 : Nat), ttl⟩ := by
    simp [Birth.copy]
  have hpos : 0 < (ttl : Int) := by
    have hrange := ttl.2
    omega
  have hfresh : ∀ x ∈ (s.cluster i).registry, x.agentId ≠ agentId := by
    intro x hx he
    obtain ⟨-, b, hb, rfl⟩ := h.copies i x hx
    exact hf (he ▸ h.given b hb)
  have hregistry : (register (s.cluster i) ⟨agentId, (s.revision + 1 : Nat), ttl⟩).registry =
      (s.cluster i).registry ++ [⟨agentId, (s.revision + 1 : Nat), ttl⟩] := register_fresh hfresh
  have hmore {a : SimAgent Str} {c : Nat} (ha : Copy births c a) :
      Copy (births ++ [⟨agentId, s.revision + 1, ttl, clock i, i⟩]) c a := by
    obtain ⟨hpos, b, hb, he⟩ := ha
    exact ⟨hpos, b, List.mem_append_left _ hb, he⟩
  refine ⟨?_, fun b hb => ?_, fun j a ha => ?_, fun b hb halive => ?_⟩
  · rw [List.map_append, List.nodup_append]
    refine ⟨h.distinct, List.nodup_singleton _, ?_⟩
    rintro name hn other ho rfl
    obtain ⟨b, hb, rfl⟩ := List.mem_map.mp hn
    rw [List.mem_map] at ho
    obtain ⟨d, hd, he⟩ := ho
    rw [List.mem_singleton.mp hd] at he
    have hname : agentId = b.agentId := he
    exact hf (hname ▸ h.given b hb)
  · rcases List.mem_append.mp hb with hb | hb
    · exact (h.given b hb).mono (Nat.le_succ _)
    · rw [List.mem_singleton.mp hb]
      exact hg
  · by_cases hj : j = i
    · subst hj
      simp only [join, setNode, Function.update_self, hregistry, List.mem_append, List.mem_singleton] at ha
      rcases ha with ha | rfl
      · exact hmore (h.copies j a ha)
      · exact ⟨hpos, _, List.mem_append_right _ (List.mem_singleton_self _), hnew.symm⟩
    · simp only [join, setNode, Function.update_of_ne hj] at ha
      exact hmore (h.copies j a ha)
  · rcases List.mem_append.mp hb with hb | hb
    · have hold := h.home b hb halive
      by_cases hi : b.node = i
      · subst hi
        simp only [join, setNode, Function.update_self, hregistry]
        exact List.mem_append_left _ hold
      · simp only [join, setNode, Function.update_of_ne hi]
        exact hold
    · rw [List.mem_singleton.mp hb]
      simp only [join, setNode, Function.update_self, hregistry, hnew]
      exact List.mem_append_right _ (List.mem_singleton_self _)

theorem aging_gossip (h : Aging births (fun _ => c) s) (p : Pair nodes) :
    Aging births (fun _ => c) (gossip s p) := by
  obtain ⟨⟨l, r⟩, hne⟩ := p
  obtain ⟨hleft, hleftKept⟩ := foldl_register h.distinct
    (fun a ha => h.copies r a (mem_delta ha) : ∀ a ∈ delta (s.cluster r) (s.cluster l) 32, Copy births c a) (h.copies l)
  obtain ⟨hright, hrightKept⟩ := foldl_register h.distinct
    (fun a ha => h.copies l a (mem_delta ha) : ∀ a ∈ delta (s.cluster l) (s.cluster r) 32, Copy births c a) (h.copies r)
  have hcluster (j : Fin nodes) : (gossip s ⟨(l, r), hne⟩).cluster j =
      if j = r then (delta (s.cluster l) (s.cluster r) 32).foldl register (s.cluster r)
      else if j = l then (delta (s.cluster r) (s.cluster l) 32).foldl register (s.cluster l) else s.cluster j := by
    simp only [gossip, setNode, gossipRound, Function.update_apply]
  refine ⟨h.distinct, h.given, fun j a ha => ?_, fun b hb halive => ?_⟩
  · rw [hcluster] at ha
    split at ha
    · exact hright a ha
    · split at ha
      · exact hleft a ha
      · exact h.copies j a ha
  · have hold := h.home b hb halive
    rw [hcluster]
    split
    next he =>
      rw [he] at hold
      exact hrightKept _ hold
    next =>
      split
      next he =>
        rw [he] at hold
        exact hleftKept _ hold
      next => exact hold

def draw (b : Birth nodes) : Nat × Ttl := (b.round, b.ttl)

theorem aging_turn (h : Aging births clock s) (joins : Fin nodes → Option Ttl) (i : Fin nodes) :
    ∃ more, Aging (births ++ more) (Function.update clock i (clock i + 1)) (nodeTurn joins s i) ∧
      more.map draw = ((joins i).map (fun ttl => (clock i + 1, ttl))).toList := by
  have htick := aging_tick h i
  rw [nodeTurn]
  cases hj : joins i with
  | none => exact ⟨[], by rw [List.append_nil]; exact htick, rfl⟩
  | some ttl =>
      have hjoin := aging_join htick i (not_given_new s.revision) (Or.inr ⟨s.revision + 1, le_rfl, rfl⟩) ttl
      rw [Function.update_self] at hjoin
      exact ⟨_, hjoin, rfl⟩

theorem aging_turns (joins : Fin nodes → Option Ttl) {l : List (Fin nodes)} (hl : l.Nodup) (h : Aging births clock s) :
    ∃ more, Aging (births ++ more) (fun i => if i ∈ l then clock i + 1 else clock i) (l.foldl (nodeTurn joins) s) ∧
      more.map draw = l.filterMap (fun i => (joins i).map (fun ttl => (clock i + 1, ttl))) := by
  induction l generalizing births clock s with
  | nil => exact ⟨[], by simpa using h, rfl⟩
  | cons i l ih =>
      obtain ⟨hi, hl⟩ := List.nodup_cons.mp hl
      obtain ⟨first, hfirst, hdraws⟩ := aging_turn h joins i
      obtain ⟨rest, hrest, hothers⟩ := ih hl hfirst
      refine ⟨first ++ rest, ?_, ?_⟩
      · have hclock : (fun j => if j ∈ i :: l then clock j + 1 else clock j) = fun j =>
            if j ∈ l then Function.update clock i (clock i + 1) j + 1 else Function.update clock i (clock i + 1) j := by
          funext j
          by_cases hj : j = i
          · subst hj
            simp [hi]
          · simp [hj]
        rw [← List.append_assoc, hclock]
        exact hrest
      · have hsame :
            l.filterMap (fun j => (joins j).map (fun ttl => (Function.update clock i (clock i + 1) j + 1, ttl))) =
              l.filterMap (fun j => (joins j).map (fun ttl => (clock j + 1, ttl))) := by
          apply List.filterMap_congr
          intro j hj
          have hne : j ≠ i := fun he => hi (he ▸ hj)
          rw [Function.update_of_ne hne]
        rw [List.map_append, hdraws, hothers, hsame, List.filterMap_cons]
        cases joins i with
        | none => rfl
        | some ttl => rfl

theorem aging_exchanges (hn : 2 ≤ nodes) (draws : RoundDraws nodes) (turns : List (Fin (nodes * 2)))
    (h : Aging births (fun _ => c) s) :
    ∃ s', turns.foldlM (exchange draws) s = .ok s' ∧ Aging births (fun _ => c) s' := by
  induction turns generalizing s with
  | nil => exact ⟨s, rfl, h⟩
  | cons k turns ih =>
      obtain ⟨s', hs', haging⟩ := ih (aging_gossip h (draws.samples hn k))
      refine ⟨s', ?_, haging⟩
      rw [List.foldlM_cons, exchange, dif_pos hn]
      exact hs'

theorem aging_playRound (hn : 2 ≤ nodes) (h : Aging births (fun _ => c) s) (draws : RoundDraws nodes) :
    ∃ more s', playRound s draws = .ok s' ∧ Aging (births ++ more) (fun _ => c + 1) s' ∧
      more.map draw = (List.finRange nodes).filterMap (fun i => (draws.joins i).map (fun ttl => (c + 1, ttl))) := by
  obtain ⟨more, hturns, hdraws⟩ := aging_turns draws.joins (List.nodup_finRange nodes) h
  simp only [List.mem_finRange, if_true] at hturns
  obtain ⟨s', hs', haging⟩ := aging_exchanges hn draws (List.finRange (nodes * 2)) hturns
  exact ⟨more, s', hs', haging, hdraws⟩

theorem aging_rounds {rounds : List (RoundDraws nodes)} (hn : 2 ≤ nodes ∨ rounds = [])
    (h : Aging births (fun _ => c) s) :
    ∃ more s', rounds.foldlM playRound s = .ok s' ∧ Aging (births ++ more) (fun _ => c + rounds.length) s' ∧
      more.map draw = (rounds.zipIdx (c + 1)).flatMap
        (fun p => (List.finRange nodes).filterMap (fun i => (p.1.joins i).map (fun ttl => (p.2, ttl)))) := by
  induction rounds generalizing births c s with
  | nil => exact ⟨[], s, rfl, by simpa using h, rfl⟩
  | cons draws rounds ih =>
      have htwo : 2 ≤ nodes := hn.resolve_right (List.cons_ne_nil _ _)
      obtain ⟨first, s', hs', hfirst, hdraws⟩ := aging_playRound htwo h draws
      obtain ⟨rest, s'', hs'', hrest, hothers⟩ := ih (Or.inl htwo) hfirst
      refine ⟨first ++ rest, s'', ?_, ?_, ?_⟩
      · rw [List.foldlM_cons, hs']
        exact hs''
      · have hlength : c + (draws :: rounds).length = c + 1 + rounds.length := by
          rw [List.length_cons]
          omega
        rw [← List.append_assoc, hlength]
        exact hrest
      · rw [List.map_append, hdraws, hothers, List.zipIdx_cons, List.flatMap_cons]

theorem aging_populate (hn : 0 < nodes) {ttls : List Ttl} (hr : s.revision = c) (h : Aging births (fun _ => 0) s) :
    ∃ more s', (ttls.zipIdx c).foldlM populate s = .ok s' ∧ Aging (births ++ more) (fun _ => 0) s' ∧
      more.map draw = ttls.map (fun ttl => (0, ttl)) := by
  induction ttls generalizing births c s with
  | nil => exact ⟨[], s, rfl, by simpa using h, rfl⟩
  | cons ttl ttls ih =>
      subst hr
      have hjoin := aging_join h ⟨s.revision % nodes, Nat.mod_lt _ hn⟩ (not_given_next s.revision)
        (Or.inl ⟨s.revision, Nat.lt_succ_self _, rfl⟩) ttl
      obtain ⟨rest, s', hs', hrest, hothers⟩ := ih rfl hjoin
      refine ⟨⟨agentName s.revision, s.revision + 1, ttl, 0, ⟨s.revision % nodes, Nat.mod_lt _ hn⟩⟩ :: rest, s', ?_, ?_,
        ?_⟩
      · rw [List.zipIdx_cons, List.foldlM_cons, populate, dif_pos hn]
        exact hs'
      · rw [List.append_cons]
        exact hrest
      · rw [List.map_cons, List.map_cons, hothers]
        rfl

theorem aging_start (hn : 0 < nodes) (ttls : List Ttl) :
    ∃ births s, ttls.zipIdx.foldlM populate ({} : Simulation nodes) = .ok s ∧ Aging births (fun _ => 0) s ∧
      births.map draw = ttls.map (fun ttl => (0, ttl)) := by
  have hempty : Aging [] (fun _ => 0) ({} : Simulation nodes) :=
    ⟨List.nodup_nil, fun b hb => absurd hb List.not_mem_nil, fun i a ha => absurd ha List.not_mem_nil,
      fun b hb => absurd hb List.not_mem_nil⟩
  exact aging_populate hn (c := 0) rfl hempty

def Playable (rounds : List (RoundDraws nodes)) : Prop := 2 ≤ nodes ∨ nodes = 1 ∧ rounds = []

theorem aging_run (ttls : List Ttl) {rounds : List (RoundDraws nodes)} (h : Playable rounds) :
    ∃ births s, simulate ttls rounds = .ok s ∧ Aging births (fun _ => rounds.length) s ∧
      births.map draw = drawn ttls rounds := by
  have hpos : 0 < nodes := by
    rcases h with h | h
    · omega
    · omega
  obtain ⟨first, s, hs, hfirst, hdraws⟩ := aging_start hpos ttls
  obtain ⟨rest, s', hs', hrest, hothers⟩ := aging_rounds (h.imp_right And.right) hfirst
  refine ⟨first ++ rest, s', ?_, ?_, ?_⟩
  · rw [simulate, hs]
    exact hs'
  · rw [Nat.zero_add] at hrest
    exact hrest
  · rw [List.map_append, hdraws, hothers, drawn]

theorem mem_liveSet {name : Str} : name ∈ liveSet s i ↔ ∃ a ∈ (s.cluster i).registry, a.agentId = name := by
  rw [liveSet, List.mem_toFinset, List.mem_map]

instance (clock : Nat) (b : Birth nodes) : Decidable (b.Alive clock) :=
  inferInstanceAs (Decidable ((clock : Int) < b.ttl + b.round))

theorem union_eq (h : Aging births (fun _ => c) s) :
    union s = ((births.filter (fun b => b.Alive c)).map Birth.agentId).toFinset := by
  ext name
  simp only [union, Finset.mem_biUnion, Finset.mem_univ, true_and, mem_liveSet, List.mem_toFinset, List.mem_map,
    List.mem_filter, decide_eq_true_eq]
  constructor
  · rintro ⟨i, a, ha, rfl⟩
    obtain ⟨hpos, b, hb, rfl⟩ := h.copies i a ha
    exact ⟨b, ⟨hb, (b.copy_ttl_pos c).mp hpos⟩, rfl⟩
  · rintro ⟨b, ⟨hb, halive⟩, rfl⟩
    exact ⟨b.node, _, h.home b hb halive, rfl⟩

theorem liveAgents_eq (h : Aging births (fun _ => c) s) :
    liveAgents s = (births.map draw).countP (fun p => (c : Int) < p.2 + p.1) := by
  have hnodup : ((births.filter (fun b => b.Alive c)).map Birth.agentId).Nodup :=
    h.distinct.sublist (List.filter_sublist.map _)
  rw [liveAgents, union_eq h, List.toFinset_card_of_nodup hnodup, List.length_map, List.countP_map,
    ← List.countP_eq_length_filter]
  rfl

theorem intersection_eq_union_iff : intersection s = union s ↔ ∀ i, liveSet s i = union s := by
  have hsub (i : Fin nodes) : liveSet s i ⊆ union s := Finset.subset_biUnion_of_mem _ (Finset.mem_univ i)
  rw [intersection, Finset.filter_eq_self]
  constructor
  · intro h i
    exact (hsub i).antisymm fun name hn => h name hn i
  · intro h name hn i
    rw [h i]
    exact hn

theorem convergence_eq_one_iff : convergence s = 1 ↔ ∀ i, liveSet s i = union s := by
  rw [← intersection_eq_union_iff, convergence]
  by_cases hempty : union s = ∅
  · rw [if_pos hempty, intersection, hempty]
    simp
  · have hcard : ((union s).card : ℚ) ≠ 0 := by
      rw [Nat.cast_ne_zero, Finset.card_ne_zero]
      exact Finset.nonempty_iff_ne_empty.mpr hempty
    rw [if_neg hempty, div_eq_one_iff_eq hcard, Nat.cast_inj]
    constructor
    · exact fun h => Finset.eq_of_subset_of_card_le (Finset.filter_subset _ _) h.ge
    · exact fun h => congrArg Finset.card h

theorem foldlM_populate_zero (ttls : List Ttl) (k : Nat) (s : Simulation 0) :
    (ttls.zipIdx k).foldlM populate s = .ok s ∨ (ttls.zipIdx k).foldlM populate s = .error .zeroDivision := by
  cases ttls with
  | nil => exact Or.inl rfl
  | cons ttl ttls => exact Or.inr rfl

theorem foldlM_playRound_zero (rounds : List (RoundDraws 0)) (s : Simulation 0) :
    ∃ s', rounds.foldlM playRound s = .ok s' := by
  induction rounds generalizing s with
  | nil => exact ⟨s, rfl⟩
  | cons draws rounds ih => exact ih s

/-- Without nodes the simulation divides by zero, and with one it cannot draw
two. -/
theorem runSimulation_error (ttls : List Ttl) {rounds : List (RoundDraws nodes)} (h : ¬ Playable rounds) :
    runSimulation ttls rounds = .error (if nodes = 0 then .zeroDivision else .valueError) := by
  obtain rfl | hpos := Nat.eq_zero_or_pos nodes
  · rw [runSimulation, simulate]
    obtain hs | hs := foldlM_populate_zero ttls 0 {}
    · obtain ⟨s', hs'⟩ := foldlM_playRound_zero rounds {}
      rw [hs]
      change (rounds.foldlM playRound {} >>= _) = _
      rw [hs']
      rfl
    · rw [hs]
      rfl
  · rw [Playable, not_or] at h
    obtain ⟨hfew, hrounds⟩ := h
    obtain rfl : nodes = 1 := by omega
    obtain ⟨draws, rounds, rfl⟩ := List.exists_cons_of_ne_nil (fun hnil => hrounds ⟨rfl, hnil⟩)
    obtain ⟨-, s, hs, -, -⟩ := aging_start hpos ttls
    rw [runSimulation, simulate, hs]
    rfl

/-- However the nodes gossip, the simulation counts as live exactly the agents
whose time to live is not over, and its convergence is one exactly when every
node has all of them. -/
theorem simulation_counts (ttls : List Ttl) (rounds : List (RoundDraws nodes)) :
    (Playable rounds → ∃ s report, simulate ttls rounds = .ok s ∧ runSimulation ttls rounds = .ok report ∧
      report.liveAgents = (drawn ttls rounds).countP (fun p => (rounds.length : Int) < p.2 + p.1) ∧
      (report.convergence = 1 ↔ ∀ i, liveSet s i = union s)) ∧
    (¬ Playable rounds →
      runSimulation ttls rounds = .error (if nodes = 0 then .zeroDivision else .valueError)) := by
  refine ⟨fun h => ?_, runSimulation_error ttls⟩
  obtain ⟨births, s, hs, haging, hdraws⟩ := aging_run ttls h
  have hne : nodes ≠ 0 := by
    rcases h with h | h
    · omega
    · omega
  have hreport : runSimulation ttls rounds = .ok (report rounds.length s) := by
    rw [runSimulation, hs]
    exact if_neg hne
  exact ⟨s, report rounds.length s, hs, hreport, hdraws ▸ liveAgents_eq haging, convergence_eq_one_iff⟩

def pairTtls : List Ttl := [⟨4, by decide⟩, ⟨6, by decide⟩]

def pairRounds : List (RoundDraws 2) := List.replicate 5 ⟨fun _ => none, fun _ _ => ⟨(0, 1), by decide⟩⟩

theorem simulation_counts_pairRounds :
    ∃ s report, simulate pairTtls pairRounds = .ok s ∧ runSimulation pairTtls pairRounds = .ok report ∧
      report.liveAgents = 1 ∧ (report.convergence = 1 ↔ ∀ i, liveSet s i = union s) := by
  obtain ⟨s, report, hs, hreport, hlive, hconvergence⟩ :=
    (simulation_counts pairTtls pairRounds).1 (Or.inl le_rfl)
  exact ⟨s, report, hs, hreport, hlive.trans (by decide), hconvergence⟩

end BeaconNode.SimulationRuns
