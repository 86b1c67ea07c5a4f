import BeaconNode.AgentExpiry
import BeaconNode.ControlReplies

namespace BeaconNode.LiveAgents

open Words TextStream Records Crypto Identity Registry KeyedList LineProtocol SyncClient ControlRuns AcceptedLines
  AgentExpiry CanonicalPayload ControlReplies

inductive NodeEvent
  | control (event : Event)
  | pull (now : TimePoint) (response : Bytes)

def NodeEvent.now : NodeEvent → TimePoint
  | .control event => eventTime event
  | .pull now _ => now

def nodeStep (platform : Platform) (protocol : ControlProtocol) (node : Node) : NodeEvent → Node
  | .control event => advance platform protocol node event
  | .pull now response => (mergeResponse platform.sodium now node response).1

def runNode (platform : Platform) (protocol : ControlProtocol) (node : Node) (events : List NodeEvent) : Node :=
  events.foldl (nodeStep platform protocol) node

def ClockRuns (events : List NodeEvent) : Prop := (events.map NodeEvent.now).Pairwise (· ≤ ·)

/-- A REGISTER, MERGE or HEARTBEAT line for the agent that is answered with
OK. -/
def AcceptedFor (platform : Platform) (protocol : ControlProtocol) (node : Node) (a : Bytes) (now : TimePoint)
    (text : Bytes) : Prop :=
  ((parseCommand protocol.lifecycle now text).action = .register ∨
    (parseCommand protocol.lifecycle now text).action = .merge ∨
    (parseCommand protocol.lifecycle now text).action = .heartbeat) ∧
  (parseCommand protocol.lifecycle now text).agentId = a ∧
  startsWith (handleLine platform protocol now node text).2 (ascii "OK") = true

def AliveUntil (a : Bytes) (time : TimePoint) (node : Node) : Prop :=
  ∃ r, findRecord a node.registry.records = some r ∧ time ≤ r.expiresAt

variable {platform : Platform} {protocol : ControlProtocol} {node : Node} {a : Bytes} {time now : TimePoint}
  {record : AgentRecord}

theorem aliveUntil_submitEffect {sodium : Option Verifier} {trust : TrustConfig} (h : AliveUntil a time node)
    (ht : time ≤ record.expiresAt) : AliveUntil a time (submitEffect sodium trust node record) := by
  rw [AliveUntil, findRecord_submitEffect]
  split
  · exact ⟨record, rfl, ht⟩
  · exact h

theorem aliveUntil_handleHeartbeat {lifecycle : LifecycleConfig} {agentId : Bytes} {revision : UInt64}
    (h : AliveUntil a time node) (ht : time ≤ now + milliseconds lifecycle.heartbeatTtl) :
    AliveUntil a time (handleHeartbeat lifecycle now node agentId revision).1 := by
  rw [AliveUntil, findRecord_handleHeartbeat]
  split
  next hboth =>
    obtain ⟨r, hr, -⟩ := h
    rw [hboth.2] at hr
    exact ⟨_, by rw [hr]; rfl, ht⟩
  next => exact h

theorem aliveUntil_mergeRecord {sodium : Option Verifier} (h : AliveUntil a time node)
    (ht : time ≤ record.expiresAt) : AliveUntil a time (mergeRecord sodium node record).1 := by
  rw [AliveUntil, findRecord_mergeRecord]
  split
  · exact ⟨record, rfl, ht⟩
  · exact h

theorem aliveUntil_merge {sodium : Option Verifier} {records : List AgentRecord} (h : AliveUntil a time node)
    (ht : ∀ r ∈ records, time ≤ r.expiresAt) : AliveUntil a time (merge sodium node records).1 := by
  rw [merge_node]
  induction records generalizing node with
  | nil => exact h
  | cons r rs ih =>
      apply ih
      · exact aliveUntil_mergeRecord h (ht r (by simp))
      · exact fun s hs => ht s (by simp [hs])

theorem parseAgentField_expiresAt (record : AgentRecord) (token : Bytes) :
    (parseAgentField record token).expiresAt = record.expiresAt := by
  obtain ⟨metadata, hm⟩ := setMetadata_eq record token
  simp only [parseAgentField, hm, apply_ite AgentRecord.expiresAt, ite_self]

/-- What a pull brings expires a minute from now. -/
theorem parseAgentLines_expiresAt {response : Bytes} {r : AgentRecord} (h : r ∈ parseAgentLines now response) :
    r.expiresAt = now + minutes 1 := by
  have hfields (fields : List Bytes) (record : AgentRecord) :
      (fields.foldl parseAgentField record).expiresAt = record.expiresAt := by
    induction fields generalizing record with
    | nil => rfl
    | cons token fields ih => rw [List.foldl_cons, ih, parseAgentField_expiresAt]
  obtain ⟨line, -, hline⟩ := List.mem_filterMap.mp h
  simp only [parseAgentLine] at hline
  split at hline
  · cases hline
  next verb fields _ =>
    split at hline
    next =>
      split at hline
      · cases hline
      · obtain rfl := Option.some.inj hline
        rw [hfields]
    next => cases hline

theorem findRecord_purge_kept {registry : AgentRegistry} {r : AgentRecord}
    (h : findRecord a registry.records = some r) (ht : now < r.expiresAt) :
    findRecord a (registry.purgeExpired now).1.records = some r :=
  lookup_filter_of_pos h (by simpa using ht)

/-- Between the acceptance and the end of the lifetime no event shortens the
agent's life. -/
theorem aliveUntil_nodeStep {accepted : TimePoint} (httl : protocol.lifecycle.heartbeatTtl ≤ 60000)
    (h : AliveUntil a (accepted + milliseconds protocol.lifecycle.heartbeatTtl) node) (event : NodeEvent)
    (hle : accepted ≤ event.now) (hlt : event.now < accepted + milliseconds protocol.lifecycle.heartbeatTtl) :
    AliveUntil a (accepted + milliseconds protocol.lifecycle.heartbeatTtl) (nodeStep platform protocol node event) := by
  cases event with
  | control event =>
      cases event with
      | line now text =>
          rw [nodeStep, advance_line]
          have hstamp : accepted + milliseconds protocol.lifecycle.heartbeatTtl ≤
              now + milliseconds protocol.lifecycle.heartbeatTtl := Int.add_le_add_right hle _
          cases ho : lineOperation protocol now text with
          | submit record =>
              apply aliveUntil_submitEffect h
              rw [parseCommand_stamp ho]
              exact hstamp
          | refresh agentId revision => exact aliveUntil_handleHeartbeat h hstamp
          | query => exact h
      | purge now =>
          obtain ⟨r, hr, ht⟩ := h
          exact ⟨r, findRecord_purge_kept hr (lt_of_lt_of_le hlt ht), ht⟩
  | pull now response =>
      apply aliveUntil_merge h
      intro r hr
      rw [parseAgentLines_expiresAt hr]
      have hminute : milliseconds protocol.lifecycle.heartbeatTtl ≤ minutes 1 := by
        simp only [minutes, milliseconds]
        omega
      exact Int.add_le_add hle hminute

theorem aliveUntil_run {accepted : TimePoint} (httl : protocol.lifecycle.heartbeatTtl ≤ 60000)
    {events : List NodeEvent}
    (h : AliveUntil a (accepted + milliseconds protocol.lifecycle.heartbeatTtl) node)
    (htimes : ∀ event ∈ events, accepted ≤ event.now ∧
      event.now < accepted + milliseconds protocol.lifecycle.heartbeatTtl) :
    AliveUntil a (accepted + milliseconds protocol.lifecycle.heartbeatTtl)
      (runNode platform protocol node events) := by
  induction events generalizing node with
  | nil => exact h
  | cons event events ih =>
      obtain ⟨hle, hlt⟩ := htimes event (by simp)
      apply ih
      · exact aliveUntil_nodeStep httl h event hle hlt
      · exact fun e he => htimes e (by simp [he])

theorem handleLine_error {text : Bytes} (h : (parseCommand protocol.lifecycle now text).error ≠ []) :
    startsWith (handleLine platform protocol now node text).2 (ascii "OK") = false := by
  simp only [handleLine, if_pos h]
  rfl

theorem aliveUntil_refreshed {lifecycle : LifecycleConfig} {agentId : Bytes} {revision : UInt64}
    (h : (handleHeartbeat lifecycle now node agentId revision).2 = true) :
    AliveUntil agentId (now + milliseconds lifecycle.heartbeatTtl)
      (handleHeartbeat lifecycle now node agentId revision).1 := by
  rw [AliveUntil, findRecord_handleHeartbeat, if_pos ⟨h, rfl⟩]
  cases hf : findRecord agentId node.registry.records with
  | none => simp [handleHeartbeat, AgentRegistry.refreshHeartbeat, refreshRecords, hf] at h
  | some existing => exact ⟨_, rfl, le_rfl⟩

/-- An accepted line gives its agent the heartbeat lifetime, whichever of the
three verbs it has. -/
theorem aliveUntil_accepted {text : Bytes} (h : AcceptedFor platform protocol node a now text) :
    AliveUntil a (now + milliseconds protocol.lifecycle.heartbeatTtl)
      (advance platform protocol node (.line now text)) := by
  obtain ⟨haction, rfl, hok⟩ := h
  have herror : (parseCommand protocol.lifecycle now text).error = [] := by
    by_contra he
    rw [handleLine_error he] at hok
    cases hok
  rw [← or_assoc] at haction
  rcases haction with haction | haction
  · have hsubmits : SubmitsRecord (parseCommand protocol.lifecycle now text) := ⟨herror, haction⟩
    have hagent := (parseCommand_reading protocol.lifecycle now text).agentId
    refine ⟨_, hagent ▸ (handleLine_accepted hsubmits hok).2, ?_⟩
    rw [parseCommand_stamp hsubmits.operation]
  · have hline : advance platform protocol node (.line now text) =
        (handleHeartbeat protocol.lifecycle now node (parseCommand protocol.lifecycle now text).agentId
          (parseCommand protocol.lifecycle now text).registration.revision).1 := by
      simp [advance, handleLine, herror, haction]
    rw [hline]
    apply aliveUntil_refreshed
    by_contra hrefused
    simp only [handleLine, herror, haction, ne_eq, not_true_eq_false, if_false, hrefused] at hok
    cases hok

theorem runNode_append (platform : Platform) (protocol : ControlProtocol) (node : Node) (events more : List NodeEvent) :
    runNode platform protocol node (events ++ more) =
      runNode platform protocol (runNode platform protocol node events) more :=
  List.foldl_append

/-- Once a line of the agent has been accepted, no purge removes the agent
before the heartbeat lifetime is over, whatever happens in between. -/
theorem live_agent_not_purged (platform : Platform) (protocol : ControlProtocol)
    (httl : protocol.lifecycle.heartbeatTtl ≤ 60000) (node : Node) (a : Bytes) (before between : List NodeEvent)
    (now later : TimePoint) (text : Bytes)
    (hclock : ClockRuns (before ++ [NodeEvent.control (.line now text)] ++ between ++
      [NodeEvent.control (.purge later)]))
    (haccepted : AcceptedFor platform protocol (runNode platform protocol node before) a now text)
    (hlater : later < now + milliseconds protocol.lifecycle.heartbeatTtl) :
    ∃ r,
      (runNode platform protocol node (before ++ [NodeEvent.control (.line now text)] ++ between)).registry.find a =
        some r ∧
      (runNode platform protocol node (before ++ [NodeEvent.control (.line now text)] ++ between ++
        [NodeEvent.control (.purge later)])).registry.find a = some r := by
  have htimes : ∀ event ∈ between, now ≤ event.now ∧
      event.now < now + milliseconds protocol.lifecycle.heartbeatTtl := by
    intro event hevent
    rw [ClockRuns, List.map_append, List.map_append, List.map_append, List.pairwise_append,
      List.pairwise_append] at hclock
    obtain ⟨⟨-, -, hline⟩, -, hpurge⟩ := hclock
    have hmem : event.now ∈ between.map NodeEvent.now := List.mem_map_of_mem hevent
    refine ⟨hline now (by simp [NodeEvent.now, eventTime]) event.now hmem, lt_of_le_of_lt ?_ hlater⟩
    exact hpurge event.now (List.mem_append_right _ hmem) later (by simp [NodeEvent.now, eventTime])
  obtain ⟨r, hr, ht⟩ := aliveUntil_run httl (aliveUntil_accepted haccepted) htimes
  have hrun : runNode platform protocol node (before ++ [NodeEvent.control (.line now text)] ++ between) =
      runNode platform protocol (advance platform protocol (runNode platform protocol node before) (.line now text))
        between := by
    rw [runNode_append, runNode_append]
    rfl
  refine ⟨r, ?_, ?_⟩
  · rw [hrun]
    exact hr
  · rw [runNode_append, hrun]
    exact findRecord_purge_kept hr (lt_of_lt_of_le hlater ht)

def registerLine : Bytes := ascii "REGISTER agent_id=a node_id=n endpoint=e:1 revision=1"

theorem live_agent_not_purged_pulled : ∃ r,
    (runNode ⟨none, insertionRevisionSort⟩ {} {} ([] ++ [NodeEvent.control (.line 0 registerLine)] ++
      [NodeEvent.pull 5 (ascii "AGENT agent_id=a node_id=n endpoint=e:2 revision=2\n")])).registry.find (ascii "a") =
        some r ∧
    (runNode ⟨none, insertionRevisionSort⟩ {} {} ([] ++ [NodeEvent.control (.line 0 registerLine)] ++
      [NodeEvent.pull 5 (ascii "AGENT agent_id=a node_id=n endpoint=e:2 revision=2\n")] ++
      [NodeEvent.control (.purge 29999999999)])).registry.find (ascii "a") = some r := by
  apply live_agent_not_purged
  · decide
  · simp [ClockRuns, NodeEvent.now, eventTime]
  · exact ⟨Or.inl (by decide), by decide, by decide⟩
  · decide

end BeaconNode.LiveAgents
