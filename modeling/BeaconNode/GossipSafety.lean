import BeaconNode.AcceptedLines
import BeaconNode.ControlRuns
import BeaconNode.SyncRounds
import Mathlib.Logic.Function.Basic
import Mathlib.Logic.Relation

namespace BeaconNode.GossipSafety

open Words TextStream Records Crypto Identity Registry LineProtocol SyncClient RecordCodec SyncRounds ControlRuns
  AcceptedLines

variable {ι : Type}

structure Settings where
  platform : Platform := ⟨none, insertionRevisionSort⟩
  protocol : ControlProtocol := {}

inductive Message
  | reply (text : Bytes)
  | merge (text : Bytes)

/-- A message stays here when it has been delivered, so it may be delivered
late, out of order, again or never. The records of all accepted REGISTER
lines are kept as history. -/
structure Cluster (ι : Type) where
  nodes : ι → Node
  messages : List Message := []
  submitted : List AgentRecord := []

def Cluster.records (c : Cluster ι) (i : ι) : List AgentRecord := (c.nodes i).registry.records

def Cluster.setNode [DecidableEq ι] (c : Cluster ι) (i : ι) (node : Node) : Cluster ι :=
  { c with nodes := Function.update c.nodes i node }

def Cluster.send (c : Cluster ι) (m : Message) : Cluster ι := { c with messages := c.messages ++ [m] }

inductive Step [DecidableEq ι] (settings : ι → Settings) : Cluster ι → Cluster ι → Prop
  | register {c : Cluster ι} (i : ι) (now : TimePoint) (line : Bytes) {command : ControlCommand}
      (hc : parseCommand (settings i).protocol.lifecycle now line = command) (ha : command.action = .register)
      (hok : (handleLine (settings i).platform (settings i).protocol now (c.nodes i) line).2 =
        okResponse (ascii "registered")) :
      Step settings c { c.setNode i
          (handleLine (settings i).platform (settings i).protocol now (c.nodes i) line).1 with
        submitted := c.submitted ++ [command.registration] }
  | reply {c : Cluster ι} (i : ι) (now : TimePoint) (afterRevision limit : UInt64) :
      Step settings c (c.send (.reply (sendCommand (settings i).platform (settings i).protocol now (c.nodes i)
        (encodeSyncPullCommand afterRevision limit)).2))
  | push {c : Cluster ι} (i : ι) {r : AgentRecord} (hr : r ∈ c.records i) :
      Step settings c (c.send (.merge (encodeMergeCommand r)))
  | deliverReply {c : Cluster ι} (i : ι) (now : TimePoint) {text : Bytes} (hm : .reply text ∈ c.messages) :
      Step settings c (c.setNode i (mergeResponse (settings i).platform.sodium now (c.nodes i) text).1)
  | deliverMerge {c : Cluster ι} (i : ι) (now : TimePoint) {text : Bytes} (hm : .merge text ∈ c.messages) :
      Step settings c (c.setNode i
        (sendCommand (settings i).platform (settings i).protocol now (c.nodes i) text).1)

/-- Some accepted REGISTER line carried the record, up to its expiry. -/
def Traced (submitted : List AgentRecord) (r : AgentRecord) : Prop := ∃ s ∈ submitted, SameButExpiry r s

def Message.Traced (submitted : List AgentRecord) : Message → Prop
  | .reply text => ∀ now, ∀ r ∈ parseAgentLines now text, GossipSafety.Traced submitted r
  | .merge text => ∀ lifecycle now, ∃ record,
      operation (parseCommand lifecycle now (firstLine (text ++ ascii "\n"))) = .submit record ∧
        GossipSafety.Traced submitted record

structure Safe (c : Cluster ι) : Prop where
  registries : ∀ i, ∀ r ∈ c.records i, Traced c.submitted r
  messages : ∀ m ∈ c.messages, m.Traced c.submitted

/-- With it goes that submitted records survive the trip over the wire. -/
structure Tracing (c : Cluster ι) : Prop extends Safe c where
  wireSafe : ∀ s ∈ c.submitted, WireSafe s ∧ Addressed s

variable {submitted : List AgentRecord} {r : AgentRecord} {c d : Cluster ι}

theorem wireSafe_of_sameButExpiry {r s : AgentRecord} (h : SameButExpiry r s) (hs : WireSafe s ∧ Addressed s) :
    WireSafe r ∧ Addressed r := by
  have he := h.symm
  rw [SameButExpiry] at he
  rw [← he]
  exact ⟨hs.1.restamp r.expiresAt, hs.2⟩

theorem Traced.mono (h : Traced submitted r) (more : List AgentRecord) : Traced (submitted ++ more) r := by
  obtain ⟨s, hs, he⟩ := h
  exact ⟨s, List.mem_append_left _ hs, he⟩

theorem Traced.restamp (h : Traced submitted r) (t : TimePoint) : Traced submitted (r.restamp t) := by
  obtain ⟨s, hs, he⟩ := h
  exact ⟨s, hs, (sameButExpiry_restamp r t).trans he⟩

theorem Message.Traced.mono {m : Message} (h : m.Traced submitted) (more : List AgentRecord) :
    m.Traced (submitted ++ more) := by
  cases m with
  | reply text => exact fun now r hr => GossipSafety.Traced.mono (h now r hr) more
  | merge text =>
      intro lifecycle now
      obtain ⟨record, ho, ht⟩ := h lifecycle now
      exact ⟨record, ho, GossipSafety.Traced.mono ht more⟩

theorem Tracing.wireSafe_record (h : Tracing c) {i : ι} (hr : r ∈ c.records i) : WireSafe r ∧ Addressed r := by
  obtain ⟨s, hs, he⟩ := h.registries i r hr
  exact wireSafe_of_sameButExpiry he (h.wireSafe s hs)

theorem tracing_submit (h : Tracing c) {record : AgentRecord} (hw : WireSafe record ∧ Addressed record) :
    Tracing { c with submitted := c.submitted ++ [record] } := by
  refine ⟨⟨fun i r hr => (h.registries i r hr).mono _, fun m hm => (h.messages m hm).mono _⟩, fun s hs => ?_⟩
  rcases List.mem_append.mp hs with hs | hs
  · exact h.wireSafe s hs
  · rw [List.mem_singleton.mp hs]
    exact hw

theorem tracing_send (h : Tracing c) {m : Message} (hm : m.Traced c.submitted) : Tracing (c.send m) := by
  refine ⟨⟨h.registries, fun n hn => ?_⟩, h.wireSafe⟩
  rcases List.mem_append.mp hn with hn | hn
  · exact h.messages n hn
  · rw [List.mem_singleton.mp hn]
    exact hm

theorem operation_of_registered {platform : Platform} {protocol : ControlProtocol} {now : TimePoint} {node : Node}
    {line : Bytes} (ha : (parseCommand protocol.lifecycle now line).action = .register)
    (hok : (handleLine platform protocol now node line).2 = okResponse (ascii "registered")) :
    operation (parseCommand protocol.lifecycle now line) =
      .submit (parseCommand protocol.lifecycle now line).registration := by
  by_cases he : (parseCommand protocol.lifecycle now line).error = []
  · simp [operation, he, ha]
  · simp only [handleLine, ne_eq, he, not_false_eq_true, if_true] at hok
    have hfirst : (69 : UInt8) = 79 := (List.cons.inj hok).1
    exact absurd hfirst (by decide)

theorem reply_traced (h : Tracing c) (i : ι) (platform : Platform) (protocol : ControlProtocol) (now : TimePoint)
    (afterRevision limit : UInt64) :
    (Message.reply (sendCommand platform protocol now (c.nodes i)
      (encodeSyncPullCommand afterRevision limit)).2).Traced c.submitted := by
  intro receiverNow r hr
  have hmem : ∀ s ∈ (c.nodes i).registry.entriesAfterRevision platform.revisionSort afterRevision limit,
      s ∈ c.records i := fun s hs => (mem_entriesAfterRevision hs).1
  rw [sendCommand_syncPull, parseAgentLines_reply "sync_pull" (by decide) _
    (fun s hs => (h.wireSafe_record (hmem s hs)).1)] at hr
  obtain ⟨s, hs, rfl⟩ := List.mem_map.mp hr
  exact (h.registries i s (hmem s hs)).restamp _

theorem push_traced (h : Tracing c) {i : ι} (hr : r ∈ c.records i) :
    (Message.merge (encodeMergeCommand r)).Traced c.submitted := by
  obtain ⟨hw, ha⟩ := h.wireSafe_record hr
  intro lifecycle now
  refine ⟨r.restamp (now + milliseconds lifecycle.heartbeatTtl), ?_, (h.registries i r hr).restamp _⟩
  rw [firstLine_encodeMergeCommand hw, parseCommand_merge hw ha]
  simp [operation]

variable [DecidableEq ι] {settings : ι → Settings}

theorem tracing_setNode (h : Tracing c) (i : ι) {node : Node}
    (hn : ∀ r ∈ node.registry.records, r ∈ c.records i ∨ Traced c.submitted r) : Tracing (c.setNode i node) := by
  refine ⟨⟨fun j r hr => ?_, h.messages⟩, h.wireSafe⟩
  by_cases hj : j = i
  · subst hj
    simp only [Cluster.records, Cluster.setNode, Function.update_self] at hr
    rcases hn r hr with hr | hr
    · exact h.registries j r hr
    · exact hr
  · simp only [Cluster.records, Cluster.setNode, Function.update_of_ne hj] at hr
    exact h.registries j r hr

theorem step_tracing (h : Tracing c) (hs : Step settings c d) : Tracing d := by
  cases hs with
  | register i now line hc ha hok =>
      subst hc
      have ho := operation_of_registered ha hok
      apply tracing_setNode (tracing_submit h (parseCommand_submit ho)) i
      intro r hr
      rw [handleLine_node, ho] at hr
      rcases mem_submitEffect hr with hr | ⟨rfl, -⟩
      · exact Or.inl hr
      · exact Or.inr ⟨_, by simp, SameButExpiry.refl _⟩
  | reply i now afterRevision limit => exact tracing_send h (reply_traced h i _ _ now afterRevision limit)
  | push i hr => exact tracing_send h (push_traced h hr)
  | deliverReply i now hm =>
      apply tracing_setNode h i
      intro r hr
      exact (mem_merge hr).imp_right fun hr => h.messages _ hm now r hr
  | deliverMerge i now hm =>
      obtain ⟨record, ho, ht⟩ := h.messages _ hm (settings i).protocol.lifecycle now
      apply tracing_setNode h i
      intro r hr
      rw [sendCommand, handleLine_node, ho] at hr
      rcases mem_submitEffect hr with hr | ⟨rfl, -⟩
      · exact Or.inl hr
      · exact Or.inr ht

theorem setNode_grows (c : Cluster ι) (i j : ι) {node : Node}
    (h : Grows (c.records i) node.registry.records) : Grows (c.records j) ((c.setNode i node).records j) := by
  by_cases hj : j = i
  · subst hj
    simpa [Cluster.records, Cluster.setNode] using h
  · simp only [Cluster.records, Cluster.setNode, Function.update_of_ne hj]
    exact Grows.refl _

theorem step_grows (hs : Step settings c d) (j : ι) : Grows (c.records j) (d.records j) := by
  cases hs with
  | register i now line hc ha hok =>
      apply setNode_grows c i j
      rw [handleLine_node]
      exact perform_grows _ _ _ _ _
  | reply i now afterRevision limit => exact Grows.refl _
  | push i hr => exact Grows.refl _
  | deliverReply i now hm => exact setNode_grows c i j (merge_grows _ _ _)
  | deliverMerge i now hm =>
      apply setNode_grows c i j
      rw [sendCommand, handleLine_node]
      exact perform_grows _ _ _ _ _

def initial (identities : ι → Option IdentityService) : Cluster ι := { nodes := fun i => { identity := identities i } }

theorem run_tracing (identities : ι → Option IdentityService)
    (h : Relation.ReflTransGen (Step settings) (initial identities) c) : Tracing c := by
  induction h with
  | refl => exact ⟨⟨by simp [Cluster.records, initial], by simp [initial]⟩, by simp [initial]⟩
  | tail _ hs ih => exact step_tracing ih hs

theorem run_grows (h : Relation.ReflTransGen (Step settings) c d) (i : ι) : Grows (c.records i) (d.records i) := by
  induction h with
  | refl => exact Grows.refl _
  | tail _ hs ih => exact ih.trans (step_grows hs i)

/-- In every reachable state all records anywhere come from accepted REGISTER
lines, and from there on no node loses an agent or lowers its revision. -/
theorem gossip_safe (settings : ι → Settings) (identities : ι → Option IdentityService) (c d : Cluster ι)
    (hc : Relation.ReflTransGen (Step settings) (initial identities) c)
    (hd : Relation.ReflTransGen (Step settings) c d) :
    Safe c ∧ ∀ i, Grows (c.records i) (d.records i) :=
  ⟨(run_tracing identities hc).toSafe, fun i => run_grows hd i⟩

def joinLine : Bytes := ascii "REGISTER agent_id=agent-1 node_id=n endpoint=e:1 revision=1"

def joinedRecord : AgentRecord :=
  { agentId := ascii "agent-1", nodeId := ascii "n", endpoint := ascii "e:1", revision := 1
    expiresAt := milliseconds 30000 }

def uniform : Bool → Settings := fun _ => {}

theorem gossip_safe_pushed :
    ∃ c d : Cluster Bool, Relation.ReflTransGen (Step uniform) (initial fun _ => none) c ∧
      Relation.ReflTransGen (Step uniform) c d ∧ c.records false = [joinedRecord] ∧ d.records true = [joinedRecord] ∧
        Safe c ∧ ∀ i, Grows (c.records i) (d.records i) := by
  have h₁ : Relation.ReflTransGen (Step uniform) (initial fun _ => none) _ :=
    .single (.register false 0 joinLine rfl (by decide +kernel) (by decide +kernel))
  have h₂ := h₁.tail (Step.push false (r := joinedRecord) (by decide +kernel))
  have hm := List.mem_append_right [] (List.mem_singleton_self (Message.merge (encodeMergeCommand joinedRecord)))
  exact ⟨_, _, h₂, .single (.deliverMerge true 0 hm), by decide +kernel, by decide +kernel,
    gossip_safe _ _ _ _ h₂ (.single (.deliverMerge true 0 hm))⟩

end BeaconNode.GossipSafety
