import BeaconNode.GossipSpread

namespace BeaconNode.NewestRecord

open Words TextStream Records Crypto Identity Registry LineProtocol SyncClient RecordCodec SyncRounds ControlRuns
  GossipFixedPoint GossipService GossipSpread Runs

variable {ι : Type} [DecidableEq ι] {net : Network ι} {agents : Finset Bytes} {s t : World ι} {i j : ι}
  {r : AgentRecord}

def Gossip : Step ι → Prop
  | .round _ _ | .proceed _ _ _ _ => True
  | .control _ _ => False

omit [DecidableEq ι] in
theorem Gossip.permitted {x : Step ι} (hx : Gossip x) : Permitted net agents x := by
  cases x with
  | round | proceed => trivial
  | control => exact absurd hx id

def phaseRecords : Phase ι → List AgentRecord
  | .merging _ _ records | .pushing _ records => records
  | .idle | .asking _ _ | .pulling _ _ _ => []

structure Carried (P : AgentRecord → Prop) (s : World ι) : Prop where
  nodes : ∀ i, ∀ r ∈ (s.nodes i).registry.records, P r
  threads : ∀ i, ∀ r ∈ phaseRecords (s.threads i).phase, P r

variable {P : AgentRecord → Prop}

theorem Carried.setThread (h : Carried P s) {thread : Thread ι} (hr : ∀ r ∈ phaseRecords thread.phase, P r) :
    Carried P (s.setThread i thread) where
  nodes := h.nodes
  threads k := by
    by_cases hk : k = i
    · subst hk
      rwa [setThread_thread]
    · rw [setThread_thread_of_ne hk]
      exact h.threads k

theorem Carried.setNode (h : Carried P s) {node : Node} (hr : ∀ r ∈ node.registry.records, P r) :
    Carried P (s.setNode i node) where
  nodes k := by
    by_cases hk : k = i
    · subst hk
      rwa [setNode_node]
    · rw [setNode_node_of_ne hk]
      exact h.nodes k
  threads := h.threads

def Linked (net : Network ι) (i j : ι) : Prop :=
  ∃ peer ∈ net.peers i, net.listening peer.host peer.controlPort = some j

def PhaseSettled (net : Network ι) (s : World ι) (i : ι) : Phase ι → Prop
  | .idle => True
  | .asking j localRevision => Linked net i j ∧ localRevision = level s i
  | .pulling j localRevision remoteRevision =>
      Linked net i j ∧ localRevision = level s i ∧ remoteRevision = level s j
  | .merging j remoteRevision records => Linked net i j ∧ remoteRevision = level s j ∧ records = []
  | .pushing _ records => records = []

structure Settled (net : Network ι) (s : World ι) : Prop where
  even : ∀ i j, Linked net i j → level s i = level s j
  queue : ∀ i, (s.threads i).queue ⊆ net.peers i
  phase : ∀ i, PhaseSettled net s i (s.threads i).phase

theorem Settled.setThread (h : Settled net s) {thread : Thread ι} (hqueue : thread.queue ⊆ net.peers i)
    (hphase : PhaseSettled net s i thread.phase) : Settled net (s.setThread i thread) where
  even := h.even
  queue k := by
    by_cases hk : k = i
    · subst hk
      rwa [setThread_thread]
    · rw [setThread_thread_of_ne hk]
      exact h.queue k
  phase k := by
    by_cases hk : k = i
    · subst hk
      rwa [setThread_thread]
    · rw [setThread_thread_of_ne hk]
      exact h.phase k

theorem Settled.setPhase (h : Settled net s) {phase : Phase ι} (hphase : PhaseSettled net s i phase) :
    Settled net (s.setPhase i phase) :=
  h.setThread (h.queue i) hphase

end BeaconNode.NewestRecord
