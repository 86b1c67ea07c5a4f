import BeaconNode.ControlRuns
import BeaconNode.GossipFixedPoint
import BeaconNode.PeerHandshake
import BeaconNode.SyncRounds
import Mathlib.Logic.Function.Basic
import Mathlib.Logic.Function.Iterate

namespace BeaconNode.GossipService

open Words TextStream Records Crypto Identity Registry LineProtocol SyncClient SyncRounds ControlRuns
  GossipFixedPoint

structure GossipPeer where
  nodeId : Bytes
  host : Bytes
  listenPort : UInt16
  controlPort : UInt16
  deriving DecidableEq

def addPeer (peers : List GossipPeer) (peer : GossipPeer) : List GossipPeer :=
  if peers.any (fun existing => existing.host = peer.host && existing.controlPort = peer.controlPort) then peers
  else peers ++ [peer]

/-- std::shuffle, whatever the generator gives. -/
structure Shuffle where
  shuffle : List Nat → List Nat
  perm : ∀ l, (shuffle l).Perm l

def gossipFanout : Nat := 3

def pickRandomIndices (S : Shuffle) (count fanout : Nat) : List Nat :=
  if count = 0 then [] else (S.shuffle (List.range count)).take (min fanout count)

def pickPeers (S : Shuffle) (peers : List GossipPeer) : List GossipPeer :=
  (pickRandomIndices S peers.length gossipFanout).filterMap (peers[·]?)

def heartbeat (nodeId : Bytes) (listenPort controlPort : UInt16) : Bytes :=
  ascii "GOSSIP_HEARTBEAT node_id=" ++ nodeId ++ ascii " listen_port=" ++ decimal listenPort.toNat ++
    ascii " control_port=" ++ decimal controlPort.toNat

/-- What becomes of one connection: the command is carried out and answered,
or the client throws before the peer has read it, or after. -/
inductive Delivery
  | answered
  | refused
  | dropped
  deriving DecidableEq

/-- send_command over a connection that may fail. No response stands for the
exception, which ends the round with this peer. -/
def deliver (platform : Platform) (protocol : ControlProtocol) (now : TimePoint) (peer : Node) (command : Bytes) :
    Delivery → Node × Option Bytes
  | .answered =>
      let (peer, response) := sendCommand platform protocol now peer command
      (peer, some response)
  | .refused => (peer, none)
  | .dropped => ((sendCommand platform protocol now peer command).1, none)

/-- Where sync_with_peer stands, with the local values that it still needs. -/
inductive Phase (ι : Type)
  | idle
  | asking (peer : ι) (localRevision : UInt64)
  | pulling (peer : ι) (localRevision remoteRevision : UInt64)
  | merging (peer : ι) (remoteRevision : UInt64) (records : List AgentRecord)
  | pushing (peer : ι) (records : List AgentRecord)
  deriving DecidableEq

/-- The gossip thread of a node, and the peers left in its round. -/
structure Thread (ι : Type) where
  queue : List GossipPeer := []
  phase : Phase ι := .idle
  deriving DecidableEq

structure Network (ι : Type) where
  platform : Platform
  protocol : ι → ControlProtocol := fun _ => {}
  maxEntries : ι → UInt64 := fun _ => 256
  peers : ι → List GossipPeer
  listening : Bytes → UInt16 → Option ι

structure World (ι : Type) where
  nodes : ι → Node
  threads : ι → Thread ι

variable {ι : Type} [DecidableEq ι]

def World.setNode (s : World ι) (i : ι) (node : Node) : World ι := { s with nodes := Function.update s.nodes i node }

def World.setThread (s : World ι) (i : ι) (thread : Thread ι) : World ι :=
  { s with threads := Function.update s.threads i thread }

def World.setPhase (s : World ι) (i : ι) (phase : Phase ι) : World ι :=
  s.setThread i { s.threads i with phase := phase }

/-- A command of thread i to node j. A failure ends the work with the peer. -/
def request (net : Network ι) (s : World ι) (i j : ι) (peerNow : TimePoint) (command : Bytes) (delivery : Delivery)
    (next : Bytes → Phase ι) : World ι :=
  let (node, response) := deliver net.platform (net.protocol j) peerNow (s.nodes j) command delivery
  (s.setNode j node).setPhase i (match response with | none => .idle | some response => next response)

/-- The next thing that a gossip thread does. Other threads run between any
two of these steps: the registry is locked for each of them alone. -/
def proceed (net : Network ι) (s : World ι) (i : ι) (now peerNow : TimePoint) (delivery : Delivery) : World ι :=
  match (s.threads i).phase with
  | .idle =>
      match (s.threads i).queue with
      | [] => s
      | peer :: queue =>
          match net.listening peer.host peer.controlPort with
          | none => s.setThread i ⟨queue, .idle⟩
          | some j => s.setThread i ⟨queue, .asking j (s.nodes i).registry.stats.highestRevision⟩
  | .asking j localRevision =>
      request net s i j peerNow (ascii "STATS") delivery
        (fun response => .pulling j localRevision (parseHighestRevision response))
  | .pulling j localRevision remoteRevision =>
      request net s i j peerNow (encodeSyncPullCommand localRevision (net.maxEntries i)) delivery
        (fun response => .merging j remoteRevision (parseAgentLines now response))
  | .merging j remoteRevision [] =>
      s.setPhase i (.pushing j (planPushPull net.platform.revisionSort (net.maxEntries i) (s.nodes i).registry
        remoteRevision).pushEntries)
  | .merging j remoteRevision (r :: rs) =>
      (s.setNode i (mergeRecord net.platform.sodium (s.nodes i) r).1).setPhase i (.merging j remoteRevision rs)
  | .pushing _ [] => s.setPhase i .idle
  | .pushing j (r :: rs) => request net s i j peerNow (encodeMergeCommand r) delivery (fun _ => .pushing j rs)

/-- The timer is set again only when a round is over, so none begins during
another. -/
def beginRound (net : Network ι) (s : World ι) (i : ι) (S : Shuffle) : World ι :=
  if s.threads i = {} then s.setThread i ⟨pickPeers S (net.peers i), .idle⟩ else s

inductive Step (ι : Type)
  | round (i : ι) (S : Shuffle)
  | proceed (i : ι) (now peerNow : TimePoint) (delivery : Delivery)
  | control (i : ι) (event : Event)

def step (net : Network ι) (s : World ι) : Step ι → World ι
  | .round i S => beginRound net s i S
  | .proceed i now peerNow delivery => proceed net s i now peerNow delivery
  | .control i event => s.setNode i (advance net.platform (net.protocol i) (s.nodes i) event)

def run (net : Network ι) (s : World ι) (steps : List (Step ι)) : World ι := steps.foldl (step net) s

def GossipPeer.address (peer : GossipPeer) : Bytes × UInt16 := (peer.host, peer.controlPort)

theorem filterMap_range_getElem? {α : Type} (l : List α) : (List.range l.length).filterMap (l[·]?) = l := by
  induction l using List.reverseRecOn with
  | nil => rfl
  | append_singleton l x ih =>
      rw [List.length_append, List.length_singleton, List.range_succ, List.filterMap_append]
      have hold : (List.range l.length).filterMap ((l ++ [x])[·]?) = (List.range l.length).filterMap (l[·]?) := by
        apply List.filterMap_congr
        intro i hi
        exact List.getElem?_append_left (List.mem_range.mp hi)
      rw [hold, ih]
      simp

theorem filterMap_getElem?_take {α : Type} (l : List α) {positions : List Nat} (h : ∀ i ∈ positions, i < l.length)
    (n : Nat) : (positions.take n).filterMap (l[·]?) = (positions.filterMap (l[·]?)).take n := by
  induction positions generalizing n with
  | nil => simp
  | cons i positions ih =>
      have hlt : i < l.length := h i (by simp)
      have hi : l[i]? = some l[i] := List.getElem?_eq_getElem hlt
      cases n with
      | zero => rfl
      | succ n =>
          rw [List.take_succ_cons, List.filterMap_cons_some hi, List.filterMap_cons_some hi, List.take_succ_cons,
            ih (fun j hj => h j (by simp [hj]))]

theorem pickPeers_eq (S : Shuffle) (peers : List GossipPeer) :
    ∃ order : List GossipPeer, order.Perm peers ∧ pickPeers S peers = order.take gossipFanout := by
  have hperm := S.perm (List.range peers.length)
  have horder : ((S.shuffle (List.range peers.length)).filterMap (peers[·]?)).Perm peers :=
    (hperm.filterMap _).trans (List.Perm.of_eq (filterMap_range_getElem? peers))
  refine ⟨_, horder, ?_⟩
  have hbelow : ∀ i ∈ S.shuffle (List.range peers.length), i < peers.length :=
    fun i hi => List.mem_range.mp (hperm.mem_iff.mp hi)
  by_cases hz : peers.length = 0
  · have hpeers := List.length_eq_zero_iff.mp hz
    subst hpeers
    have hnil : S.shuffle (List.range ([] : List GossipPeer).length) = [] := List.perm_nil.mp hperm
    rw [hnil]
    rfl
  · rw [pickPeers, pickRandomIndices, if_neg hz, filterMap_getElem?_take peers hbelow, List.take_eq_take_iff,
      horder.length_eq]
    omega

theorem pickPeers_perm (S : Shuffle) {peers : List GossipPeer} (h : peers.length ≤ gossipFanout) :
    (pickPeers S peers).Perm peers := by
  obtain ⟨order, hperm, he⟩ := pickPeers_eq S peers
  rw [he, List.take_of_length_le (hperm.length_eq.trans_le h)]
  exact hperm

theorem addPeer_nodup {peers : List GossipPeer} (h : (peers.map GossipPeer.address).Nodup) (peer : GossipPeer) :
    ((addPeer peers peer).map GossipPeer.address).Nodup := by
  rw [addPeer]
  split
  · exact h
  next hnew =>
    rw [List.map_append, List.map_singleton, List.nodup_append]
    refine ⟨h, List.nodup_singleton _, ?_⟩
    rintro _ ha _ hb rfl
    obtain ⟨existing, hm, he⟩ := List.mem_map.mp ha
    rw [List.mem_singleton, ← he, GossipPeer.address, GossipPeer.address, Prod.mk.injEq] at hb
    exact hnew (List.any_eq_true.mpr ⟨existing, hm, by simp [hb]⟩)

variable {net : Network ι} {s : World ι} {i j : ι} {now peerNow : TimePoint}

@[simp] theorem setNode_threads (s : World ι) (i : ι) (node : Node) : (s.setNode i node).threads = s.threads := rfl
@[simp] theorem setThread_nodes (s : World ι) (i : ι) (t : Thread ι) : (s.setThread i t).nodes = s.nodes := rfl
@[simp] theorem setPhase_nodes (s : World ι) (i : ι) (p : Phase ι) : (s.setPhase i p).nodes = s.nodes := rfl

@[simp] theorem setPhase_phase (s : World ι) (i : ι) (p : Phase ι) : ((s.setPhase i p).threads i).phase = p := by
  simp [World.setPhase, World.setThread]

@[simp] theorem setPhase_queue (s : World ι) (i : ι) (p : Phase ι) :
    ((s.setPhase i p).threads i).queue = (s.threads i).queue := by
  simp [World.setPhase, World.setThread]

@[simp] theorem setThread_thread (s : World ι) (i : ι) (t : Thread ι) : (s.setThread i t).threads i = t := by
  simp [World.setThread]

theorem setThread_thread_of_ne {s : World ι} {i k : ι} (h : k ≠ i) (t : Thread ι) :
    (s.setThread i t).threads k = s.threads k := by
  simp [World.setThread, h]

@[simp] theorem setNode_node (s : World ι) (i : ι) (node : Node) : (s.setNode i node).nodes i = node := by
  simp [World.setNode]

theorem setNode_node_of_ne {s : World ι} {i k : ι} (h : k ≠ i) (node : Node) :
    (s.setNode i node).nodes k = s.nodes k := by
  simp [World.setNode, h]

theorem setNode_same (s : World ι) (i : ι) : s.setNode i (s.nodes i) = s := by
  simp [World.setNode]

theorem setPhase_setNode_setPhase (s : World ι) (i j : ι) (p q : Phase ι) (node : Node) :
    ((s.setPhase i p).setNode j node).setPhase i q = (s.setNode j node).setPhase i q := by
  simp [World.setPhase, World.setThread, World.setNode]

theorem setPhase_setPhase (s : World ι) (i : ι) (p q : Phase ι) : (s.setPhase i p).setPhase i q = s.setPhase i q := by
  simp [World.setPhase, World.setThread]

theorem setNode_comm (hij : i ≠ j) (node other : Node) :
    (s.setNode i node).setNode j other = (s.setNode j other).setNode i node := by
  simp [World.setNode, Function.update_comm hij]

theorem setNode_setNode (s : World ι) (j : ι) (node other : Node) :
    (s.setNode j node).setNode j other = s.setNode j other := by
  simp [World.setNode]

theorem request_eq (net : Network ι) (s : World ι) (i j : ι) (peerNow : TimePoint) (command : Bytes)
    (delivery : Delivery) (next : Bytes → Phase ι) :
    request net s i j peerNow command delivery next =
      (s.setNode j (if delivery = .refused then s.nodes j else
        (sendCommand net.platform (net.protocol j) peerNow (s.nodes j) command).1)).setPhase i
        (if delivery = .answered then
          next (sendCommand net.platform (net.protocol j) peerNow (s.nodes j) command).2 else .idle) := by
  cases delivery with
  | answered | refused | dropped => rfl

theorem request_answered (net : Network ι) (s : World ι) (i j : ι) (peerNow : TimePoint) (command : Bytes)
    (next : Bytes → Phase ι) :
    request net s i j peerNow command .answered next =
      (s.setNode j (sendCommand net.platform (net.protocol j) peerNow (s.nodes j) command).1).setPhase i
        (next (sendCommand net.platform (net.protocol j) peerNow (s.nodes j) command).2) := rfl

/-- Thread i takes some number of steps, and nothing else happens. -/
def Undisturbed (net : Network ι) (i : ι) (now peerNow : TimePoint) (s t : World ι) : Prop :=
  ∃ n, (fun s => proceed net s i now peerNow .answered)^[n] s = t

theorem Undisturbed.refl (s : World ι) : Undisturbed net i now peerNow s s := ⟨0, rfl⟩

theorem Undisturbed.step {t : World ι} (h : proceed net s i now peerNow .answered = t) :
    Undisturbed net i now peerNow s t := ⟨1, h⟩

theorem Undisturbed.trans {t u : World ι} (h : Undisturbed net i now peerNow s t)
    (k : Undisturbed net i now peerNow t u) : Undisturbed net i now peerNow s u := by
  obtain ⟨n, rfl⟩ := h
  obtain ⟨m, rfl⟩ := k
  exact ⟨m + n, Function.iterate_add_apply _ m n s⟩

theorem proceed_merging {remoteRevision : UInt64} {records : List AgentRecord}
    (hp : (s.threads i).phase = .merging j remoteRevision records) :
    Undisturbed net i now peerNow s
      ((s.setNode i (merge net.platform.sodium (s.nodes i) records).1).setPhase i (.merging j remoteRevision [])) := by
  induction records generalizing s with
  | nil =>
      have hself : s.setPhase i (.merging j remoteRevision []) = s := by
        rw [World.setPhase, ← hp]
        simp [World.setThread]
      rw [merge_node, List.foldl_nil, setNode_same, hself]
      exact Undisturbed.refl s
  | cons r rs ih =>
      have hstep : proceed net s i now peerNow .answered =
          (s.setNode i (mergeRecord net.platform.sodium (s.nodes i) r).1).setPhase i
            (.merging j remoteRevision rs) := by
        rw [proceed, hp]
      apply (Undisturbed.step hstep).trans
      convert ih (setPhase_phase _ i _) using 1
      rw [setPhase_setNode_setPhase, setNode_setNode, merge_node, merge_node, List.foldl_cons, setPhase_nodes,
        setNode_node]

omit [DecidableEq ι] in
theorem pushEntries_fold (platform : Platform) (protocol : ControlProtocol) (now : TimePoint) (peer : Node)
    (entries : List AgentRecord) :
    (pushEntries platform protocol now peer entries).1 =
      entries.foldl (fun peer r => (sendCommand platform protocol now peer (encodeMergeCommand r)).1) peer := by
  have hfold : ∀ (n : Nat) (peer : Node), (entries.foldl (fun (state : Node × Nat) entry =>
      ((sendCommand platform protocol now state.1 (encodeMergeCommand entry)).1,
        if startsWith (sendCommand platform protocol now state.1 (encodeMergeCommand entry)).2 (ascii "OK") then
          state.2 + 1 else state.2)) (peer, n)).1 =
      entries.foldl (fun peer r => (sendCommand platform protocol now peer (encodeMergeCommand r)).1) peer := by
    induction entries with
    | nil => intro n peer; rfl
    | cons r rs ih => intro n peer; rw [List.foldl_cons, List.foldl_cons, ih]
  exact hfold 0 peer

theorem proceed_pushing {records : List AgentRecord} (hp : (s.threads i).phase = .pushing j records) :
    Undisturbed net i now peerNow s
      ((s.setNode j (pushEntries net.platform (net.protocol j) peerNow (s.nodes j) records).1).setPhase i .idle) := by
  induction records generalizing s with
  | nil =>
      apply Undisturbed.step
      rw [pushEntries_fold, List.foldl_nil, setNode_same, proceed, hp]
  | cons r rs ih =>
      have hstep : proceed net s i now peerNow .answered = (s.setNode j (sendCommand net.platform (net.protocol j)
          peerNow (s.nodes j) (encodeMergeCommand r)).1).setPhase i (.pushing j rs) := by
        rw [proceed, hp]
        simp only [request_answered]
      apply (Undisturbed.step hstep).trans
      convert ih (setPhase_phase _ i _) using 1
      rw [setPhase_setNode_setPhase, setNode_setNode, pushEntries_fold, pushEntries_fold, List.foldl_cons,
        setPhase_nodes, setNode_node]

theorem proceed_sync (hij : i ≠ j) {revision : UInt64} {stats reply : Node × Bytes} {merged : Node}
    (hp : (s.threads i).phase = .asking j revision)
    (hstats : sendCommand net.platform (net.protocol j) peerNow (s.nodes j) (ascii "STATS") = stats)
    (hreply : sendCommand net.platform (net.protocol j) peerNow stats.1
      (encodeSyncPullCommand revision (net.maxEntries i)) = reply)
    (hmerged : (merge net.platform.sodium (s.nodes i) (parseAgentLines now reply.2)).1 = merged) :
    Undisturbed net i now peerNow s
      (((s.setNode i merged).setNode j (pushEntries net.platform (net.protocol j) peerNow reply.1
        (planPushPull net.platform.revisionSort (net.maxEntries i) merged.registry
          (parseHighestRevision stats.2)).pushEntries).1).setPhase i .idle) := by
  have hask : proceed net s i now peerNow .answered =
      (s.setNode j stats.1).setPhase i (.pulling j revision (parseHighestRevision stats.2)) := by
    rw [proceed, hp]
    simp only [request_answered, hstats]
  apply (Undisturbed.step hask).trans
  have hpull : proceed net ((s.setNode j stats.1).setPhase i (.pulling j revision (parseHighestRevision stats.2))) i
      now peerNow .answered = (s.setNode j reply.1).setPhase i
        (.merging j (parseHighestRevision stats.2) (parseAgentLines now reply.2)) := by
    rw [proceed, setPhase_phase]
    simp only [request_answered, setPhase_nodes, setNode_node, hreply, setPhase_setNode_setPhase, setNode_setNode]
  apply (Undisturbed.step hpull).trans
  apply (proceed_merging (setPhase_phase _ _ _)).trans
  rw [setPhase_nodes, setNode_node_of_ne hij, hmerged, setPhase_setNode_setPhase]
  generalize hplan : planPushPull net.platform.revisionSort (net.maxEntries i) merged.registry
    (parseHighestRevision stats.2) = plan
  have hplanned : proceed net (((s.setNode j reply.1).setNode i merged).setPhase i
      (.merging j (parseHighestRevision stats.2) [])) i now peerNow .answered =
        ((s.setNode j reply.1).setNode i merged).setPhase i (.pushing j plan.pushEntries) := by
    rw [proceed, setPhase_phase]
    simp only [setPhase_nodes, setNode_node, hplan, setPhase_setPhase]
  apply (Undisturbed.step hplanned).trans
  convert proceed_pushing (setPhase_phase _ _ _) using 1
  rw [setPhase_nodes, setNode_node_of_ne hij.symm, setNode_node, setPhase_setNode_setPhase,
    setNode_comm hij.symm reply.1 merged, setNode_setNode]

omit [DecidableEq ι] in
theorem syncWithPeer_nodes {platform : Platform} {maxEntries : UInt64} {here peer merged : Node}
    {protocol : ControlProtocol} {stats reply : Node × Bytes}
    (hstats : sendCommand platform protocol peerNow peer (ascii "STATS") = stats)
    (hreply : sendCommand platform protocol peerNow stats.1
      (encodeSyncPullCommand here.registry.stats.highestRevision maxEntries) = reply)
    (hmerged : (merge platform.sodium here (parseAgentLines now reply.2)).1 = merged) :
    (syncWithPeer platform maxEntries now here protocol peerNow peer).here = merged ∧
      (syncWithPeer platform maxEntries now here protocol peerNow peer).peer =
        (pushEntries platform protocol peerNow reply.1 (planPushPull platform.revisionSort maxEntries merged.registry
          (parseHighestRevision stats.2)).pushEntries).1 := by
  simp only [syncWithPeer, mergeResponse, hstats, hreply, hmerged, and_self]

/-- A thread that takes up a peer and meets neither a failure nor another
thread leaves both nodes as one round of the sync client does. -/
theorem undisturbed_sync (hij : i ≠ j) {peer : GossipPeer} {queue : List GossipPeer}
    (ht : s.threads i = ⟨peer :: queue, .idle⟩) (hl : net.listening peer.host peer.controlPort = some j) :
    Undisturbed net i now peerNow s
      (((s.setNode i (syncWithPeer net.platform (net.maxEntries i) now (s.nodes i) (net.protocol j) peerNow
        (s.nodes j)).here).setNode j (syncWithPeer net.platform (net.maxEntries i) now (s.nodes i) (net.protocol j)
          peerNow (s.nodes j)).peer).setThread i ⟨queue, .idle⟩) := by
  obtain ⟨stats, hstats⟩ : ∃ stats, sendCommand net.platform (net.protocol j) peerNow (s.nodes j) (ascii "STATS") =
      stats := ⟨_, rfl⟩
  obtain ⟨reply, hreply⟩ : ∃ reply, sendCommand net.platform (net.protocol j) peerNow stats.1
      (encodeSyncPullCommand (s.nodes i).registry.stats.highestRevision (net.maxEntries i)) = reply := ⟨_, rfl⟩
  obtain ⟨merged, hmerged⟩ : ∃ merged, (merge net.platform.sodium (s.nodes i) (parseAgentLines now reply.2)).1 =
      merged := ⟨_, rfl⟩
  obtain ⟨hhere, hpeer⟩ := syncWithPeer_nodes hstats hreply hmerged
  have htake : proceed net s i now peerNow .answered =
      s.setThread i ⟨queue, .asking j (s.nodes i).registry.stats.highestRevision⟩ := by
    rw [proceed, ht]
    simp only [hl]
  have hphase : ((s.setThread i ⟨queue, .asking j (s.nodes i).registry.stats.highestRevision⟩).threads i).phase =
      .asking j (s.nodes i).registry.stats.highestRevision := by
    rw [setThread_thread]
  apply (Undisturbed.step htake).trans
  convert proceed_sync hij hphase hstats hreply hmerged using 1
  rw [hhere, hpeer]
  simp only [World.setPhase, World.setNode, World.setThread, Function.update_self, Function.update_idem]

def pairPeer : GossipPeer := ⟨[], ascii "10.0.0.2", 43170, 43171⟩

def pairNetwork : Network Bool where
  platform := ⟨none, insertionRevisionSort⟩
  peers i := if i then [] else [pairPeer]
  listening host port := if host = ascii "10.0.0.2" ∧ port = 43171 then some true else none

def pairWorld : World Bool where
  nodes i := if i then (partyOf [plainRecord "agent-1" 5]).node else {}
  threads _ := {}

def pairReady : World Bool := pairWorld.setThread false ⟨[pairPeer], .idle⟩

theorem undisturbed_sync_pair :
    Undisturbed pairNetwork false 0 0 pairReady
      (((pairReady.setNode false (syncWithPeer pairNetwork.platform (pairNetwork.maxEntries false) 0
        (pairReady.nodes false) (pairNetwork.protocol true) 0 (pairReady.nodes true)).here).setNode true
          (syncWithPeer pairNetwork.platform (pairNetwork.maxEntries false) 0 (pairReady.nodes false)
            (pairNetwork.protocol true) 0 (pairReady.nodes true)).peer).setThread false ⟨[], .idle⟩) :=
  undisturbed_sync (by decide) (setThread_thread _ _ _) (by decide)

end BeaconNode.GossipService
