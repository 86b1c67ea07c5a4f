import BeaconNode.EngineRestart
import BeaconNode.LogReload

namespace BeaconNode.EngineLives

open Words TextStream Records Crypto Identity Registry KeyedList LineProtocol ControlRuns Persistence WalReplay
  EntryWire RegistryLog LogReload EngineRestart Runs

/-- The engine is started, handles an event, or is killed while it handles
one, when the first bytes of what the event appends are in the log. An event
that appends nothing stands for a kill between two events. The purge that
opens the main loop is an event too, since lines can be answered before it. -/
inductive LifeEvent
  | start (now : TimePoint)
  | event (event : Event)
  | kill (event : Event) (kept : Nat)

/-- The files, the running process if there is one, and the history: the
records of the registrations that were answered with OK, those whose entries
are whole in the log, and whether a kill has left a part of an entry. -/
structure Deployment where
  disk : Disk := {}
  process : Option Node := none
  acknowledged : List AgentRecord := []
  logged : List AgentRecord := []
  torn : Bool := false

def confirmed (platform : Platform) (protocol : ControlProtocol) (node : Node) : Event → List AgentRecord
  | .line now text =>
      match lineOperation protocol now text with
      | .submit record =>
          if (ascii "OK").isPrefixOf (handleLine platform protocol now node text).2 then [record] else []
      | .refresh _ _ | .query => []
  | .purge _ => []

def appended (platform : Platform) (protocol : ControlProtocol) (node : Node) (event : Event) : List AgentRecord :=
  (advance platform protocol node event).registry.onUpsert.drop node.registry.onUpsert.length

/-- What the event appends can be read back, and nothing is appended after a
part of an entry. -/
def Admissible (codec : EntryMessage) (platform : Platform) (protocol : ControlProtocol) (s : Deployment) :
    LifeEvent → Prop
  | .start _ => True
  | .event event | .kill event _ => ∀ node, s.process = some node →
      ∀ r ∈ appended platform protocol node event, ReadBack codec (toEntry r) ∧ s.torn = false

variable {codec : EntryMessage} {platform : Platform} {protocol : ControlProtocol} {s : Deployment} {node : Node}

theorem isOk_okResponse (done : Bytes) : (ascii "OK").isPrefixOf (okResponse done) = true := rfl

theorem isOk_errorResponse (message : Bytes) : (ascii "OK").isPrefixOf (errorResponse message) = false := rfl

theorem handleLine_submit {now : TimePoint} {text : Bytes} {record : AgentRecord}
    (h : lineOperation protocol now text = .submit record) (platform : Platform) (node : Node) :
    ∃ done, handleLine platform protocol now node text =
      submitRecord platform.sodium protocol.trust node record done := by
  rw [lineOperation, operation] at h
  split at h
  · cases h
  next he =>
    rw [handleLine, if_neg he]
    cases ha : (parseCommand protocol.lifecycle now text).action with
    | register | merge =>
        rw [ha] at h
        cases h
        exact ⟨_, rfl⟩
    | heartbeat | list | stats | syncPull | unknown =>
        rw [ha] at h
        cases h

theorem confirmed_submit {now : TimePoint} {text : Bytes} {record : AgentRecord}
    (h : lineOperation protocol now text = .submit record) (platform : Platform) (node : Node) :
    confirmed platform protocol node (.line now text) =
      if accepts platform.sodium protocol.trust node record then [record] else [] := by
  obtain ⟨done, hline⟩ := handleLine_submit h platform node
  rw [confirmed, h]
  dsimp only
  rw [hline, submitRecord_eq]
  cases accepts platform.sodium protocol.trust node record with
  | true => simp [isOk_okResponse]
  | false => simp [isOk_errorResponse]

end BeaconNode.EngineLives
