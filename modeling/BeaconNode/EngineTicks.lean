import BeaconNode.ClientRuns
import BeaconNode.EngineLives
import BeaconNode.Reputation

namespace BeaconNode.EngineTicks

open Words TextStream Records Crypto Identity Registry KeyedList LineProtocol ControlRuns ClientRuns EngineRestart
  EngineLives Reputation

/-- The standard sort with the highest revisions first, whatever it does with
equal ones. -/
structure PushSort where
  sort : List AgentRecord → List AgentRecord
  perm : ∀ l, (sort l).Perm l
  sorted : ∀ l, (sort l).Pairwise (fun r s => s.revision ≤ r.revision)

def insertionPushSort : PushSort where
  sort l := l.insertionSort (fun r s => s.revision ≤ r.revision)
  perm l := List.perm_insertionSort _ l
  sorted l :=
    haveI : Std.Total (fun r s : AgentRecord => s.revision ≤ r.revision) := ⟨fun _ _ => le_total _ _⟩
    haveI : IsTrans AgentRecord (fun r s => s.revision ≤ r.revision) := ⟨fun _ _ _ h k => le_trans k h⟩
    List.pairwise_insertionSort _ l

def maxRegistryItemsPerRound : Nat := 256

def selectPushEntries (S : PushSort) (registry : List AgentRecord) : List AgentRecord :=
  (S.sort registry).take maxRegistryItemsPerRound

structure Tick where
  stats : RegistryStats
  gossipPushEntries : Nat
  purged : Nat
  acceptsSelf : Bool
  trustedAgents : Nat
  statsLine : Bytes

def Tick.text (tick : Tick) : Bytes :=
  ascii "tick active_agents=" ++ decimal tick.stats.activeAgents ++
    ascii " highest_revision=" ++ decimal tick.stats.highestRevision.toNat ++
    ascii " gossip_push_entries=" ++ decimal tick.gossipPushEntries ++
    ascii " purged=" ++ decimal tick.purged ++
    ascii " accepts_self=" ++ decimal tick.acceptsSelf.toNat ++
    ascii " trusted_agents=" ++ decimal tick.trustedAgents ++
    ascii "\ncontrol_stats: " ++ tick.statsLine

def trustedAgents (node : Node) : Nat := (node.identity.getD {}).trustStore.length

/-- Where the main thread stands in its loop, with what it has read so far. -/
inductive Phase
  | sleeping
  | purged (count : Nat)
  | counted (count : Nat) (stats : RegistryStats)
  | selected (count : Nat) (stats : RegistryStats) (entries : Nat)

structure Engine where
  node : Node
  phase : Phase := .sleeping
  ticks : List Tick := []

/-- A line that the control server handles, or the next thing that the main
thread does. The registry is locked for each of them alone. -/
inductive Turn
  | line (now : TimePoint) (text : Bytes)
  | main (now : TimePoint)

section Engine

variable (platform : Platform) (protocol : ControlProtocol) (S : PushSort) (nodeId : Bytes)

def mainStep (s : Engine) (now : TimePoint) : Engine :=
  match s.phase with
  | .sleeping =>
      let (registry, count) := s.node.registry.purgeExpired now
      { s with node := { s.node with registry := registry }, phase := .purged count }
  | .purged count => { s with phase := .counted count s.node.registry.stats }
  | .counted count stats =>
      { s with phase := .selected count stats (selectPushEntries S s.node.registry.list).length }
  | .selected count stats entries =>
      let (node, statsLine) := handleLine platform protocol now s.node (ascii "STATS")
      -- nobody calls record_malformed, so the counts stay as they were built
      let reputation : ReputationEngine := {}
      { s with
        node := node
        phase := .sleeping
        ticks := s.ticks ++ [⟨stats, entries, count, reputation.acceptsPeer nodeId, trustedAgents node, statsLine⟩] }

def turn (s : Engine) : Turn → Engine
  | .line now text => { s with node := (handleLine platform protocol now s.node text).1 }
  | .main now => mainStep platform protocol S nodeId s now

/-- The agents that a turn brings into the registry: those whose registration
is answered with OK while the registry has no record of them. -/
def joined (s : Engine) : Turn → List Bytes
  | .line now text =>
      ((confirmed platform protocol s.node (.line now text)).filter
        (fun r => (findRecord r.agentId s.node.registry.records).isNone)).map AgentRecord.agentId
  | .main _ => []

def joins : Engine → List Turn → List Bytes
  | _, [] => []
  | s, t :: turns => joined platform protocol s t ++ joins (turn platform protocol S nodeId s t) turns

end Engine

def Phase.pending : Phase → Nat
  | .sleeping => 0
  | .purged count | .counted count _ | .selected count _ _ => count

/-- No record is left out of a push for one with a lower revision. -/
theorem selectPushEntries_top (S : PushSort) (registry : List AgentRecord) :
    ∃ rest, (selectPushEntries S registry ++ rest).Perm registry ∧
      ∀ r ∈ selectPushEntries S registry, ∀ s ∈ rest, s.revision ≤ r.revision := by
  refine ⟨(S.sort registry).drop maxRegistryItemsPerRound, ?_, ?_⟩
  · rw [selectPushEntries, List.take_append_drop]
    exact S.perm registry
  · have hsorted := S.sorted registry
    rw [← List.take_append_drop maxRegistryItemsPerRound (S.sort registry), List.pairwise_append] at hsorted
    exact fun r hr s hs => hsorted.2.2 r hr s hs

variable {platform : Platform} {protocol : ControlProtocol} {S : PushSort} {nodeId : Bytes}

theorem handleLine_length (s : Engine) (now : TimePoint) (text : Bytes) :
    (handleLine platform protocol now s.node text).1.registry.records.length =
      s.node.registry.records.length + (joined platform protocol s (.line now text)).length := by
  have hline : (handleLine platform protocol now s.node text).1 = _ := advance_line platform protocol s.node now text
  rw [hline, joined]
  cases hop : lineOperation protocol now text with
  | submit record =>
      rw [confirmed_submit hop, perform, submitEffect_eq]
      cases accepts platform.sodium protocol.trust s.node record with
      | true =>
          simp only [if_true, acceptRecord, storeRecord_length, List.length_map]
          cases hfind : findRecord record.agentId s.node.registry.records with
          | none => simp [hfind]
          | some existing => simp [hfind]
      | false => rfl
  | refresh agentId revision =>
      rw [perform, handleHeartbeat, confirmed, hop]
      exact refreshHeartbeat_length _ _ _ _
  | query =>
      rw [perform, confirmed, hop]
      rfl

theorem handleLine_stats (now : TimePoint) (node : Node) :
    handleLine platform protocol now node (ascii "STATS") =
      (node, ascii "OK " ++ statsText node.registry.stats ++ ascii "\n") := rfl

theorem purgeExpired_length (registry : AgentRegistry) (now : TimePoint) :
    (registry.purgeExpired now).1.records.length + (registry.purgeExpired now).2 = registry.records.length := by
  have hle := List.length_filter_le (fun r : AgentRecord => decide (now < r.expiresAt)) registry.records
  rw [AgentRegistry.purgeExpired]
  dsimp only
  omega

def purgedAgents (s : Engine) : Nat := (s.ticks.map Tick.purged).sum + s.phase.pending

theorem turn_accounts (s : Engine) (t : Turn) :
    let next := turn platform protocol S nodeId s t
    next.node.registry.records.length + purgedAgents next =
      s.node.registry.records.length + purgedAgents s + (joined platform protocol s t).length := by
  cases t with
  | line now text =>
      rw [turn]
      dsimp only
      rw [handleLine_length]
      simp only [purgedAgents]
      omega
  | main now =>
      simp only [turn, mainStep, purgedAgents, joined]
      cases hp : s.phase with
      | sleeping =>
          have hpurge := purgeExpired_length s.node.registry now
          simp only [Phase.pending, List.length_nil]
          omega
      | purged count | counted count stats => rfl
      | selected count stats entries =>
          rw [handleLine_stats]
          simp only [Phase.pending, List.map_append, List.sum_append, List.map_singleton, List.sum_singleton,
            List.length_nil]
          omega

/-- No agent is lost between the control port and the purge: those that the
registry had and those that joined are in the registry or have been counted as
purged, each as often as it joined, wherever the lines fall between the steps
of the main loop. -/
theorem agents_accounted (platform : Platform) (protocol : ControlProtocol) (S : PushSort) (nodeId : Bytes)
    (s : Engine) (turns : List Turn) :
    let after := turns.foldl (turn platform protocol S nodeId) s
    after.node.registry.records.length + purgedAgents after =
      s.node.registry.records.length + purgedAgents s +
        (joins platform protocol S nodeId s turns).length := by
  induction turns generalizing s with
  | nil => rfl
  | cons t turns ih =>
      dsimp only at ih ⊢
      rw [List.foldl_cons, ih, turn_accounts, joins, List.length_append, Nat.add_assoc]

/-- The first agent expires before the tick, and the second joins in the
middle of it. -/
def expiringTurns : List Turn :=
  [.line 0 (ascii "REGISTER agent_id=agent-1 node_id=n endpoint=e:1 revision=1"), .main (minutes 5),
    .line (minutes 5) (ascii "REGISTER agent_id=agent-2 node_id=n endpoint=e:2 revision=2"), .main (minutes 5),
    .main (minutes 5), .main (minutes 5)]

def emptyEngine : Engine := { node := {} }

theorem agents_accounted_expiringTurns :
    let after :=
      expiringTurns.foldl (turn plainPlatform openProtocol insertionPushSort (ascii "node-1")) emptyEngine
    after.ticks.map Tick.purged = [1] ∧
      after.node.registry.records.length + purgedAgents after =
        emptyEngine.node.registry.records.length + purgedAgents emptyEngine +
          (joins plainPlatform openProtocol insertionPushSort (ascii "node-1") emptyEngine expiringTurns).length :=
  ⟨by decide +kernel,
    agents_accounted plainPlatform openProtocol insertionPushSort (ascii "node-1") emptyEngine expiringTurns⟩

end BeaconNode.EngineTicks
