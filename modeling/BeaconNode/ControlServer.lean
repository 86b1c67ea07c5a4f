import BeaconNode.ControlSession
import BeaconNode.Runs

namespace BeaconNode.ControlServer

open Words TextStream Records Registry LineProtocol ProtobufControl Framing ControlReplies Persistence WalReplay
  ControlSession Runs

/-- What the client has done with its side of a connection. -/
inductive Peer
  | sending
  | finished
  | reset
  deriving DecidableEq

/-- What has arrived from the client stays readable, a reset included. The
connection takes as many bytes from the server as there is room for, until the
client reads some of them. -/
structure Connection where
  arrived : Bytes := []
  peer : Peer := .sending
  room : Nat := 0
  written : Bytes := []

/-- Where the thread of the server stands: in accept, in the receive that
peeks, in the reads that follow on the header it saw, in the write of what is
left of its reply, or past its loop. -/
inductive Worker
  | accepting
  | peeking
  | reading (header : Bytes)
  | writing (rest : Bytes)
  | ended

/-- The connections are in the order in which accept hands them out, those
handed out before included. -/
structure ServerState where
  node : Node
  connections : List Connection := []
  accepted : Nat := 0
  worker : Worker := .accepting
  stopping : Bool := false
  replies : List Bytes := []

def ServerState.current (s : ServerState) : Connection := s.connections.getD (s.accepted - 1) {}

def sessionReads (protobuf : Bool) (header stream : Bytes) : SessionInput :=
  if headerSize ≤ header.length && isBinaryFrameHeader header then
    if protobuf then readFrame header stream else .frame header
  else readLine stream

section Server

variable (platform : Platform) (codec : Option ControlCodec) (protocol : ControlProtocol)

def answer (now : TimePoint) (node : Node) (input : SessionInput) : Node × Bytes :=
  match codec, input with
  | some codec, .frame frameBytes => handleControlFrame platform codec protocol now node frameBytes
  | none, .frame _ => (node, ascii "ERR message=protobuf_control_disabled\n")
  | _, .line text => handleLine platform protocol now node text
  | _, .failed => (node, [])

/-- A session that fails has nothing to write. -/
def respond (s : ServerState) (result : Node × Bytes) : ServerState :=
  { s with node := result.1, replies := s.replies ++ [result.2], worker := .writing result.2 }

def leave (s : ServerState) : ServerState := { s with worker := if s.stopping then .ended else .accepting }

def Connection.write (bytes : Bytes) (c : Connection) : Connection :=
  { c with room := c.room - bytes.length, written := c.written ++ bytes }

def ServerState.update (s : ServerState) (i : Nat) (f : Connection → Connection) : ServerState :=
  { s with connections := s.connections.modify i f }

/-- The next thing that the thread of the server does, nothing while the call
it is in blocks. -/
def work (s : ServerState) (now : TimePoint) : ServerState :=
  match s.worker with
  | .accepting =>
      if s.accepted < s.connections.length then
        { s with accepted := s.accepted + 1, worker := if s.stopping then .ended else .peeking }
      else s
  | .peeking =>
      if s.current.arrived ≠ [] then { s with worker := .reading (s.current.arrived.take headerSize) }
      else if s.current.peer = .sending then s
      else respond s (s.node, [])
  | .reading header =>
      let input := sessionReads codec.isSome header s.current.arrived
      if input = .failed ∧ s.current.peer = .sending then s
      else respond s (answer platform codec protocol now s.node input)
  | .writing rest =>
      if rest = [] ∨ s.current.peer = .reset then leave s
      else if s.current.room = 0 then s
      else
        { s.update (s.accepted - 1) (Connection.write (rest.take s.current.room)) with
          worker := .writing (rest.drop s.current.room) }
  | .ended => s

def Connection.receive (bytes : Bytes) (c : Connection) : Connection :=
  if c.peer = .sending then { c with arrived := c.arrived ++ bytes } else c

def Connection.close (c : Connection) : Connection := if c.peer = .sending then { c with peer := .finished } else c

def Connection.abort (c : Connection) : Connection := { c with peer := .reset }

def Connection.drain (n : Nat) (c : Connection) : Connection := { c with room := c.room + n }

/-- What goes on around the server: clients connect, their bytes arrive, they
close and reset, and read of what was written, the main thread purges the
registry, the server is stopped, whose own connection may or may not get
through, and accept fails. -/
inductive ServerEvent
  | connect (room : Nat)
  | arrive (i : Nat) (bytes : Bytes)
  | close (i : Nat)
  | abort (i : Nat)
  | drain (i : Nat) (n : Nat)
  | work (now : TimePoint)
  | purge (now : TimePoint)
  | stop (reached : Bool)
  | acceptFails

def purge (node : Node) (now : TimePoint) : Node := { node with registry := (node.registry.purgeExpired now).1 }

def serverStep (s : ServerState) : ServerEvent → ServerState
  | .connect room => { s with connections := s.connections ++ [{ room := room }] }
  | .arrive i bytes => s.update i (Connection.receive bytes)
  | .close i => s.update i Connection.close
  | .abort i => s.update i Connection.abort
  | .drain i n => s.update i (Connection.drain n)
  | .work now => work platform codec protocol s now
  | .purge now => { s with node := purge s.node now }
  | .stop reached =>
      { s with
        stopping := true
        connections := if reached then s.connections ++ [{ peer := .finished }] else s.connections }
  | .acceptFails =>
      match s.worker with
      | .accepting => { s with worker := .ended }
      | _ => s

/-- The work of the server with each session done at one go. -/
inductive Task
  | session (now : TimePoint) (i : Nat)
  | purge (now : TimePoint)

def Task.connection : Task → Option Nat
  | .session _ i => some i
  | .purge _ => none

def Task.purged : Task → Option TimePoint
  | .session _ _ => none
  | .purge now => some now

def Task.time : Task → TimePoint
  | .session now _ => now
  | .purge now => now

def ServerEvent.purged : ServerEvent → Option TimePoint
  | .purge now => some now
  | _ => none

def ServerEvent.time : ServerEvent → Option TimePoint
  | .work now => some now
  | .purge now => some now
  | _ => none

def perform (sockets : Nat → Socket) (s : Node × List Bytes) : Task → Node × List Bytes
  | .session now i =>
      let (node, reply) := serveSession platform codec protocol now s.1 (sockets i)
      (node, s.2 ++ [reply])
  | .purge now => (purge s.1 now, s.2)

theorem serveSession_answer (now : TimePoint) (node : Node) (socket : Socket) :
    serveSession platform codec protocol now node socket =
      answer platform codec protocol now node (sessionInput codec.isSome socket) := rfl

end Server

section Streams

variable {protobuf : Bool} {header stream : Bytes} {c : Connection} {socket : Socket}

theorem sessionInput_cons (protobuf : Bool) (first : Bytes) (rest : Socket) :
    sessionInput protobuf (first :: rest) =
      sessionReads protobuf (first.take headerSize) (first ++ rest.flatten) := rfl

theorem sessionInput_header (protobuf : Bool) (hl : header.length ≤ headerSize) (rest : Bytes) :
    sessionInput protobuf [header, rest] = sessionReads protobuf header (header ++ rest) := by
  rw [sessionInput_cons, List.take_of_length_le hl, List.flatten_singleton]

theorem readFrame_append (h : readFrame header stream ≠ .failed) (more : Bytes) :
    readFrame header (stream ++ more) = readFrame header stream := by
  rw [readFrame] at h
  rw [readFrame, readFrame]
  cases hhead : readBytes header.length stream with
  | none => exact absurd (by rw [hhead]) h
  | some split =>
      obtain ⟨frameBytes, rest⟩ := split
      simp only [hhead] at h
      obtain ⟨hstream, hlength⟩ := eq_of_readBytes hhead
      rw [hstream, List.append_assoc, ← hlength, readBytes_append]
      cases hbody : readBytes (readU32 header 5).toNat rest with
      | none => exact absurd (by rw [hbody]) h
      | some split =>
          obtain ⟨payload, after⟩ := split
          obtain ⟨hrest, hpayload⟩ := eq_of_readBytes hbody
          simp only [hrest, List.append_assoc, ← hpayload, readBytes_append]

theorem readLine_append (h : readLine stream ≠ .failed) (more : Bytes) :
    readLine (stream ++ more) = readLine stream := by
  rw [readLine] at h
  split at h
  next hnewline =>
    obtain ⟨line, rest, rfl, hline⟩ := List.eq_append_cons_of_mem hnewline
    rw [readLine, readLine, if_pos hnewline, if_pos (List.mem_append_left more hnewline), List.append_assoc,
      List.cons_append, firstLine_append line _ hline, firstLine_append line _ hline]
  next => exact absurd rfl h

/-- A session that has read its request is not changed by what comes after. -/
theorem sessionReads_append (h : sessionReads protobuf header stream ≠ .failed) (more : Bytes) :
    sessionReads protobuf header (stream ++ more) = sessionReads protobuf header stream := by
  rw [sessionReads] at h
  rw [sessionReads, sessionReads]
  split
  · rename_i hframe
    rw [if_pos hframe] at h
    split
    · rename_i hprotobuf
      rw [if_pos hprotobuf] at h
      exact readFrame_append h more
    · rfl
  · rename_i hframe
    rw [if_neg hframe] at h
    exact readLine_append h more

theorem sessionInput_append (h : sessionInput protobuf socket ≠ .failed) (more : Bytes) :
    sessionInput protobuf (socket ++ [more]) = sessionInput protobuf socket := by
  cases socket with
  | nil => exact absurd rfl h
  | cons first rest =>
      rw [sessionInput_cons] at h
      rw [List.cons_append, sessionInput_cons, sessionInput_cons, List.flatten_append, List.flatten_singleton,
        ← List.append_assoc]
      exact sessionReads_append h more

/-- The pieces make up what has arrived, and a client whose request could not
be read sends no more. -/
structure Carries (protobuf : Bool) (c : Connection) (socket : Socket) : Prop where
  arrived : socket.flatten = c.arrived
  unread : sessionInput protobuf socket = .failed → c.peer ≠ .sending

theorem Carries.receive (h : Carries protobuf c socket) (bytes : Bytes) :
    ∃ socket', Carries protobuf (c.receive bytes) socket' ∧
      sessionInput protobuf socket' = sessionInput protobuf socket := by
  rw [Connection.receive]
  split
  next hp =>
    have hread : sessionInput protobuf socket ≠ .failed := fun hf => h.unread hf hp
    have hinput := sessionInput_append hread bytes
    refine ⟨socket ++ [bytes], ⟨?_, fun hf => absurd (hinput ▸ hf) hread⟩, hinput⟩
    rw [List.flatten_append, List.flatten_singleton, h.arrived]
  next => exact ⟨socket, h, rfl⟩

theorem Carries.close (h : Carries protobuf c socket) : Carries protobuf c.close socket := by
  rw [Connection.close]
  split
  next => exact ⟨h.arrived, fun _ => by simp⟩
  next => exact h

theorem Carries.abort (h : Carries protobuf c socket) : Carries protobuf c.abort socket :=
  ⟨h.arrived, fun _ => by simp [Connection.abort]⟩

theorem Carries.drain (h : Carries protobuf c socket) (n : Nat) : Carries protobuf (c.drain n) socket :=
  ⟨h.arrived, h.unread⟩

theorem Carries.write (h : Carries protobuf c socket) (bytes : Bytes) : Carries protobuf (c.write bytes) socket :=
  ⟨h.arrived, h.unread⟩

theorem exists_socket {header : Bytes} (hlength : header.length ≤ headerSize) (hheader : header <+: c.arrived)
    (hover : sessionReads protobuf header c.arrived = .failed → c.peer ≠ .sending) :
    ∃ socket, Carries protobuf c socket ∧ sessionInput protobuf socket = sessionReads protobuf header c.arrived := by
  obtain ⟨rest, harrived⟩ := hheader
  have hinput : sessionInput protobuf [header, rest] = sessionReads protobuf header c.arrived := by
    rw [sessionInput_header protobuf hlength, harrived]
  refine ⟨[header, rest], ⟨?_, fun hf => hover (hinput ▸ hf)⟩, hinput⟩
  rw [List.flatten_cons, List.flatten_singleton, harrived]

end Streams

section Runs

variable {platform : Platform} {codec : Option ControlCodec} {protocol : ControlProtocol} {start : Node}
  {s : ServerState} {tasks : List Task} {sockets : Nat → Socket}

def Placed (s : ServerState) : Prop :=
  match s.worker with
  | .accepting => s.accepted = s.replies.length
  | .peeking => s.accepted = s.replies.length + 1
  | .reading header =>
      s.accepted = s.replies.length + 1 ∧ header.length ≤ headerSize ∧ header <+: s.current.arrived
  | .writing _ => s.accepted = s.replies.length ∧ 0 < s.accepted
  | .ended => s.replies.length ≤ s.accepted

structure Serial (platform : Platform) (codec : Option ControlCodec) (protocol : ControlProtocol) (start : Node)
    (s : ServerState) (tasks : List Task) (sockets : Nat → Socket) : Prop where
  outcome : tasks.foldl (perform platform codec protocol sockets) (start, []) = (s.node, s.replies)
  order : tasks.filterMap Task.connection = List.range s.replies.length
  carried : ∀ i < s.replies.length, ∃ c, s.connections[i]? = some c ∧ Carries codec.isSome c (sockets i)
  accepted : s.accepted ≤ s.connections.length
  placed : Placed s

theorem foldl_perform_congr {sockets' : Nat → Socket} (h : ∀ i, some i ∈ tasks.map Task.connection →
      sessionInput codec.isSome (sockets' i) = sessionInput codec.isSome (sockets i)) (r : Node × List Bytes) :
    tasks.foldl (perform platform codec protocol sockets') r =
      tasks.foldl (perform platform codec protocol sockets) r := by
  apply List.foldl_ext
  intro r task htask
  cases task with
  | purge now => rfl
  | session now i =>
      rw [perform, perform, serveSession_answer, serveSession_answer,
        h i (List.mem_map.mpr ⟨_, htask, rfl⟩)]

theorem update_get (s : ServerState) (i k : Nat) (f : Connection → Connection) :
    (s.update i f).connections[k]? = s.connections[k]?.map (fun c => if i = k then f c else c) := by
  rw [ServerState.update, List.getElem?_modify]
  rfl

theorem current_eq (ha : 0 < s.accepted) (hl : s.accepted ≤ s.connections.length) :
    s.connections[s.accepted - 1]? = some s.current := by
  have hlt : s.accepted - 1 < s.connections.length := by omega
  rw [ServerState.current, List.getD_eq_getElem?_getD, List.getElem?_eq_getElem hlt, Option.getD_some]

theorem update_current (s : ServerState) (i : Nat) {f : Connection → Connection}
    (harrived : ∀ c : Connection, c.arrived <+: (f c).arrived) :
    s.current.arrived <+: (s.update i f).current.arrived := by
  have haccepted : (s.update i f).accepted = s.accepted := rfl
  rw [ServerState.current, ServerState.current, haccepted, List.getD_eq_getElem?_getD, List.getD_eq_getElem?_getD,
    update_get]
  cases s.connections[s.accepted - 1]? with
  | none => exact List.prefix_refl _
  | some c =>
      rw [Option.map_some, Option.getD_some, Option.getD_some]
      split
      · exact harrived c
      · exact List.prefix_refl _

theorem Placed.update (h : Placed s) (i : Nat) {f : Connection → Connection}
    (harrived : ∀ c : Connection, c.arrived <+: (f c).arrived) : Placed (s.update i f) := by
  rw [Placed] at h ⊢
  change match s.worker with
    | .accepting => s.accepted = s.replies.length
    | .peeking => s.accepted = s.replies.length + 1
    | .reading header => s.accepted = s.replies.length + 1 ∧ header.length ≤ headerSize ∧
        header <+: (s.update i f).current.arrived
    | .writing _ => s.accepted = s.replies.length ∧ 0 < s.accepted
    | .ended => s.replies.length ≤ s.accepted
  cases hw : s.worker with
  | reading header =>
      rw [hw] at h
      obtain ⟨hposition, hlength, hheader⟩ := h
      exact ⟨hposition, hlength, hheader.trans (update_current s i harrived)⟩
  | accepting | peeking | writing | ended => rwa [hw] at h

theorem Serial.lt_of_mem (h : Serial platform codec protocol start s tasks sockets) {k : Nat}
    (hk : some k ∈ tasks.map Task.connection) : k < s.replies.length := by
  obtain ⟨task, htask, he⟩ := List.mem_map.mp hk
  have hmem : k ∈ tasks.filterMap Task.connection := List.mem_filterMap.mpr ⟨task, htask, he⟩
  rwa [h.order, List.mem_range] at hmem

/-- What a client does with its connection changes nothing of the sessions
that are over. -/
theorem Serial.update (h : Serial platform codec protocol start s tasks sockets) (i : Nat)
    {f : Connection → Connection} (harrived : ∀ c : Connection, c.arrived <+: (f c).arrived)
    (hf : ∀ c socket, Carries codec.isSome c socket → ∃ socket', Carries codec.isSome (f c) socket' ∧
      sessionInput codec.isSome socket' = sessionInput codec.isSome socket) :
    ∃ sockets', Serial platform codec protocol start (s.update i f) tasks sockets' := by
  have hall (k : Nat) : ∃ socket', k < s.replies.length →
      (∃ c, (s.update i f).connections[k]? = some c ∧ Carries codec.isSome c socket') ∧
        sessionInput codec.isSome socket' = sessionInput codec.isSome (sockets k) := by
    by_cases hk : k < s.replies.length
    · obtain ⟨c, hc, hcarries⟩ := h.carried k hk
      rw [update_get, hc, Option.map_some]
      split
      · obtain ⟨socket', hsocket, hinput⟩ := hf c _ hcarries
        exact ⟨socket', fun _ => ⟨⟨f c, rfl, hsocket⟩, hinput⟩⟩
      · exact ⟨sockets k, fun _ => ⟨⟨c, rfl, hcarries⟩, rfl⟩⟩
    · exact ⟨[], fun hlt => absurd hlt hk⟩
  choose sockets' hsockets using hall
  refine ⟨sockets', ?_, h.order, fun k hk => (hsockets k hk).1, ?_, h.placed.update i harrived⟩
  · rw [foldl_perform_congr (fun k hk => (hsockets k (h.lt_of_mem hk)).2)]
    exact h.outcome
  · rw [ServerState.update, List.length_modify]
    exact h.accepted

theorem current_connect (ha : 0 < s.accepted) (hl : s.accepted ≤ s.connections.length) (more : List Connection)
    (stopping : Bool) :
    { s with connections := s.connections ++ more, stopping := stopping : ServerState }.current = s.current := by
  have hlt : s.accepted - 1 < s.connections.length := by omega
  rw [ServerState.current, ServerState.current, List.getD_eq_getElem?_getD, List.getD_eq_getElem?_getD]
  dsimp only
  rw [List.getElem?_append_left hlt]

theorem Serial.connect (h : Serial platform codec protocol start s tasks sockets) (more : List Connection)
    (stopping : Bool) : Serial platform codec protocol start
      { s with connections := s.connections ++ more, stopping := stopping } tasks sockets where
  outcome := h.outcome
  order := h.order
  carried i hi := by
    obtain ⟨c, hc, hcarries⟩ := h.carried i hi
    exact ⟨c, List.getElem?_append_left (List.getElem?_eq_some_iff.mp hc).1 ▸ hc, hcarries⟩
  accepted := by
    rw [List.length_append]
    exact h.accepted.trans (Nat.le_add_right _ _)
  placed := by
    have hplaced := h.placed
    rw [Placed] at hplaced ⊢
    dsimp only
    cases hw : s.worker with
    | accepting | peeking | writing | ended => rwa [hw] at hplaced
    | reading header =>
        rw [hw] at hplaced
        obtain ⟨hposition, hlength, hheader⟩ := hplaced
        refine ⟨hposition, hlength, ?_⟩
        change header <+:
          (ServerState.current { s with connections := s.connections ++ more, stopping := stopping }).arrived
        rwa [current_connect (hposition ▸ Nat.succ_pos _) h.accepted]

theorem Serial.purge (h : Serial platform codec protocol start s tasks sockets) (now : TimePoint) :
    Serial platform codec protocol start { s with node := ControlServer.purge s.node now } (tasks ++ [.purge now])
      sockets where
  outcome := by rw [List.foldl_append, h.outcome]; rfl
  order := by rw [List.filterMap_append, h.order]; exact List.append_nil _
  carried := h.carried
  accepted := h.accepted
  placed := h.placed

theorem Serial.get_current (h : Serial platform codec protocol start s tasks sockets)
    (ha : s.accepted = s.replies.length + 1) : s.connections[s.replies.length]? = some s.current := by
  have hcurrent := current_eq (ha ▸ Nat.succ_pos _) h.accepted
  rwa [ha, Nat.add_sub_cancel] at hcurrent

theorem Serial.respond (h : Serial platform codec protocol start s tasks sockets)
    (ha : s.accepted = s.replies.length + 1) {socket : Socket} (hc : Carries codec.isSome s.current socket)
    (now : TimePoint) :
    Serial platform codec protocol start
      (ControlServer.respond s (answer platform codec protocol now s.node (sessionInput codec.isSome socket)))
      (tasks ++ [.session now s.replies.length]) (Function.update sockets s.replies.length socket) where
  outcome := by
    have hsame (k : Nat) (hk : some k ∈ tasks.map Task.connection) :
        sessionInput codec.isSome (Function.update sockets s.replies.length socket k) =
          sessionInput codec.isSome (sockets k) := by
      rw [Function.update_of_ne (h.lt_of_mem hk).ne]
    rw [List.foldl_append, foldl_perform_congr hsame, h.outcome, List.foldl_cons, List.foldl_nil, perform,
      serveSession_answer, Function.update_self]
    rfl
  order := by
    rw [List.filterMap_append, h.order, ControlServer.respond, List.length_append, List.length_singleton,
      List.range_succ]
    rfl
  carried k hk := by
    rw [ControlServer.respond, List.length_append, List.length_singleton] at hk
    obtain hlt | rfl := Nat.lt_succ_iff_lt_or_eq.mp hk
    · rw [Function.update_of_ne hlt.ne]
      exact h.carried k hlt
    · rw [Function.update_self]
      exact ⟨s.current, h.get_current ha, hc⟩
  accepted := h.accepted
  placed := by
    have hlength : (s.replies ++ [(answer platform codec protocol now s.node
        (sessionInput codec.isSome socket)).2]).length = s.replies.length + 1 := by
      rw [List.length_append, List.length_singleton]
    exact ⟨ha.trans hlength.symm, ha ▸ Nat.succ_pos _⟩

theorem Serial.leave (h : Serial platform codec protocol start s tasks sockets)
    (ha : s.accepted = s.replies.length) :
    Serial platform codec protocol start (ControlServer.leave s) tasks sockets := by
  refine ⟨h.outcome, h.order, h.carried, h.accepted, ?_⟩
  rw [Placed, ControlServer.leave]
  dsimp only
  cases s.stopping
  · exact ha
  · exact ha.ge

theorem Serial.work (h : Serial platform codec protocol start s tasks sockets) (now : TimePoint) :
    ∃ more sockets', (more = [] ∨ ∃ i, more = [.session now i]) ∧
      Serial platform codec protocol start (ControlServer.work platform codec protocol s now) (tasks ++ more)
        sockets' := by
  have hplaced := h.placed
  rw [Placed] at hplaced
  rw [ControlServer.work]
  cases hw : s.worker with
  | ended => exact ⟨[], sockets, Or.inl rfl, by rwa [List.append_nil]⟩
  | accepting =>
      rw [hw] at hplaced
      refine ⟨[], sockets, Or.inl rfl, ?_⟩
      rw [List.append_nil]
      dsimp only at hplaced ⊢
      split
      next hlt =>
        refine ⟨h.outcome, h.order, h.carried, hlt, ?_⟩
        rw [Placed]
        dsimp only
        cases s.stopping
        · exact congrArg (· + 1) hplaced
        · exact hplaced.ge.trans (Nat.le_succ _)
      next => exact h
  | peeking =>
      rw [hw] at hplaced
      dsimp only at hplaced ⊢
      split
      next =>
        refine ⟨[], sockets, Or.inl rfl, ?_⟩
        rw [List.append_nil]
        refine ⟨h.outcome, h.order, h.carried, h.accepted, hplaced, ?_, List.take_prefix _ _⟩
        rw [List.length_take]
        exact Nat.min_le_left _ _
      next harrived =>
        rw [not_not] at harrived
        split
        next => exact ⟨[], sockets, Or.inl rfl, by rwa [List.append_nil]⟩
        next hsending =>
          have hcarries : Carries codec.isSome s.current [] := ⟨harrived.symm, fun _ => hsending⟩
          have hnothing : answer platform codec protocol now s.node .failed = (s.node, []) := by cases codec <;> rfl
          refine ⟨_, Function.update sockets s.replies.length [], Or.inr ⟨s.replies.length, rfl⟩, ?_⟩
          rw [← hnothing]
          exact h.respond hplaced hcarries now
  | reading header =>
      rw [hw] at hplaced
      obtain ⟨hposition, hlength, hheader⟩ := hplaced
      dsimp only
      split
      next => exact ⟨[], sockets, Or.inl rfl, by rwa [List.append_nil]⟩
      next hover =>
        obtain ⟨socket, hcarries, hinput⟩ := exists_socket hlength hheader (fun hf hp => hover ⟨hf, hp⟩)
        refine ⟨_, Function.update sockets s.replies.length socket, Or.inr ⟨s.replies.length, rfl⟩, ?_⟩
        rw [← hinput]
        exact h.respond hposition hcarries now
  | writing rest =>
      rw [hw] at hplaced
      dsimp only at hplaced ⊢
      split
      next => exact ⟨[], sockets, Or.inl rfl, by rw [List.append_nil]; exact h.leave hplaced.1⟩
      next =>
        split
        next => exact ⟨[], sockets, Or.inl rfl, by rwa [List.append_nil]⟩
        next =>
          obtain ⟨sockets', h'⟩ := h.update (s.accepted - 1) (f := Connection.write (rest.take s.current.room))
            (fun c => List.prefix_refl _) (fun c socket hc => ⟨socket, hc.write _, rfl⟩)
          refine ⟨[], sockets', Or.inl rfl, ?_⟩
          rw [List.append_nil]
          exact ⟨h'.outcome, h'.order, h'.carried, h'.accepted, hplaced⟩

theorem Connection.arrived_prefix_receive (bytes : Bytes) (c : Connection) :
    c.arrived <+: (c.receive bytes).arrived := by
  rw [Connection.receive]
  split
  · exact List.prefix_append _ _
  · exact List.prefix_refl _

theorem Connection.arrived_close (c : Connection) : c.close.arrived = c.arrived := by
  rw [Connection.close]
  split <;> rfl

theorem Serial.step (h : Serial platform codec protocol start s tasks sockets) (event : ServerEvent) :
    ∃ more sockets', Serial platform codec protocol start (serverStep platform codec protocol s event)
        (tasks ++ more) sockets' ∧
      more.filterMap Task.purged = event.purged.toList ∧ (more.map Task.time).Sublist event.time.toList := by
  cases event with
  | connect room =>
      refine ⟨[], sockets, ?_, rfl, List.Sublist.refl _⟩
      rw [List.append_nil]
      exact h.connect [{ room := room }] s.stopping
  | arrive i bytes =>
      obtain ⟨sockets', h'⟩ :=
        h.update i (Connection.arrived_prefix_receive bytes) (fun c socket hc => hc.receive bytes)
      exact ⟨[], sockets', by rwa [List.append_nil], rfl, List.Sublist.refl _⟩
  | close i =>
      obtain ⟨sockets', h'⟩ :=
        h.update i (fun c => c.arrived_close ▸ List.prefix_refl _) (fun c socket hc => ⟨socket, hc.close, rfl⟩)
      exact ⟨[], sockets', by rwa [List.append_nil], rfl, List.Sublist.refl _⟩
  | abort i =>
      obtain ⟨sockets', h'⟩ :=
        h.update i (f := Connection.abort) (fun c => List.prefix_refl _) (fun c socket hc => ⟨socket, hc.abort, rfl⟩)
      exact ⟨[], sockets', by rwa [List.append_nil], rfl, List.Sublist.refl _⟩
  | drain i n =>
      obtain ⟨sockets', h'⟩ :=
        h.update i (f := Connection.drain n) (fun c => List.prefix_refl _)
          (fun c socket hc => ⟨socket, hc.drain n, rfl⟩)
      exact ⟨[], sockets', by rwa [List.append_nil], rfl, List.Sublist.refl _⟩
  | work now =>
      obtain ⟨more, sockets', hmore, h'⟩ := h.work now
      refine ⟨more, sockets', h', ?_, ?_⟩
      · obtain rfl | ⟨i, rfl⟩ := hmore <;> rfl
      · obtain rfl | ⟨i, rfl⟩ := hmore
        · exact List.nil_sublist _
        · exact List.Sublist.refl _
  | purge now => exact ⟨[.purge now], sockets, h.purge now, rfl, List.Sublist.refl _⟩
  | stop reached =>
      refine ⟨[], sockets, ?_, rfl, List.Sublist.refl _⟩
      rw [List.append_nil]
      cases reached with
      | true => exact h.connect _ true
      | false =>
          have hconnect := h.connect [] true
          rwa [List.append_nil] at hconnect
  | acceptFails =>
      refine ⟨[], sockets, ?_, rfl, List.Sublist.refl _⟩
      rw [List.append_nil, serverStep]
      cases hw : s.worker with
      | accepting =>
          have hplaced := h.placed
          rw [Placed, hw] at hplaced
          exact ⟨h.outcome, h.order, h.carried, h.accepted, hplaced.ge⟩
      | peeking | reading | writing | ended => exact h

theorem Serial.run (h : Serial platform codec protocol start s tasks sockets) (events : List ServerEvent) :
    ∃ more sockets', Serial platform codec protocol start (events.foldl (serverStep platform codec protocol) s)
        (tasks ++ more) sockets' ∧
      more.filterMap Task.purged = events.filterMap ServerEvent.purged ∧
      (more.map Task.time).Sublist (events.filterMap ServerEvent.time) := by
  induction events generalizing s tasks sockets with
  | nil => exact ⟨[], sockets, by rwa [List.append_nil], rfl, List.Sublist.refl _⟩
  | cons event events ih =>
      obtain ⟨first, sockets', h', hpurged, htimes⟩ := h.step event
      obtain ⟨rest, sockets'', h'', hpurged', htimes'⟩ := ih h'
      refine ⟨first ++ rest, sockets'', ?_, ?_, ?_⟩
      · rwa [List.append_assoc] at h''
      · rw [List.filterMap_append, hpurged, hpurged']
        cases event <;> rfl
      · rw [List.map_append]
        have hevents : (event :: events).filterMap ServerEvent.time =
            event.time.toList ++ events.filterMap ServerEvent.time := by
          cases event <;> rfl
        rw [hevents]
        exact htimes.append htimes'

def ServerState.unwritten (s : ServerState) (i : Nat) : Bytes :=
  match s.worker with
  | .writing rest => if i + 1 = s.replies.length then rest else []
  | _ => []

/-- Each reply is on its connection but for what is still to be written, and a
front part of it where the client has reset. -/
structure Delivers (s : ServerState) : Prop where
  told : ∀ i reply, s.replies[i]? = some reply → ∃ c, s.connections[i]? = some c ∧
    (c.written ++ s.unwritten i = reply ∨ c.peer = .reset ∧ s.unwritten i = [] ∧ c.written <+: reply)
  fresh : ∀ i c, s.replies.length ≤ i → s.connections[i]? = some c → c.written = []

theorem unwritten_eq_nil (h : ∀ rest, s.worker ≠ .writing rest) (i : Nat) : s.unwritten i = [] := by
  rw [ServerState.unwritten]
  cases hw : s.worker with
  | writing rest => exact absurd hw (h rest)
  | accepting | peeking | reading | ended => rfl

theorem Delivers.same (h : Delivers s) {s' : ServerState} (hr : s'.replies = s.replies)
    (hc : s'.connections = s.connections) (hu : ∀ i, s'.unwritten i = s.unwritten i) : Delivers s' := by
  refine ⟨fun i reply hreply => ?_, fun i c hi hget => ?_⟩
  · rw [hc, hu]
    exact h.told i reply (hr ▸ hreply)
  · exact h.fresh i c (hr ▸ hi) (hc ▸ hget)

theorem Delivers.update (h : Delivers s) (i : Nat) {f : Connection → Connection}
    (hwritten : ∀ c, (f c).written = c.written) (hpeer : ∀ c : Connection, c.peer = .reset → (f c).peer = .reset) :
    Delivers (s.update i f) := by
  refine ⟨fun k reply hreply => ?_, fun k c hk hget => ?_⟩
  · obtain ⟨c, hget, htold⟩ := h.told k reply hreply
    rw [update_get, hget, Option.map_some]
    refine ⟨_, rfl, ?_⟩
    split
    · rw [hwritten]
      exact htold.imp_right (And.imp_left (hpeer c))
    · exact htold
  · rw [update_get, Option.map_eq_some_iff] at hget
    obtain ⟨before, hget, rfl⟩ := hget
    split
    · rw [hwritten]
      exact h.fresh k before hk hget
    · exact h.fresh k before hk hget

theorem Delivers.connect (h : Delivers s) {more : List Connection} (hmore : ∀ c ∈ more, c.written = [])
    (stopping : Bool) : Delivers { s with connections := s.connections ++ more, stopping := stopping } := by
  refine ⟨fun i reply hreply => ?_, fun i c hi hget => ?_⟩
  · obtain ⟨c, hget, htold⟩ := h.told i reply hreply
    exact ⟨c, List.getElem?_append_left (List.getElem?_eq_some_iff.mp hget).1 ▸ hget, htold⟩
  · by_cases hlt : i < s.connections.length
    · exact h.fresh i c hi (List.getElem?_append_left hlt ▸ hget)
    · dsimp only at hget
      rw [List.getElem?_append_right (not_lt.mp hlt)] at hget
      exact hmore c (List.mem_of_getElem? hget)

/-- A reply begins to be written on a connection with nothing on it. -/
theorem Delivers.respond (h : Delivers s) {c : Connection} (hget : s.connections[s.replies.length]? = some c)
    (hidle : ∀ rest, s.worker ≠ .writing rest) (result : Node × Bytes) : Delivers (respond s result) := by
  have hlength : (ControlServer.respond s result).replies.length = s.replies.length + 1 := by
    rw [ControlServer.respond, List.length_append, List.length_singleton]
  have hlast : (ControlServer.respond s result).unwritten s.replies.length = result.2 := if_pos hlength.symm
  have hothers (i : Nat) (hi : i < s.replies.length) : (ControlServer.respond s result).unwritten i = [] :=
    if_neg (by rw [hlength]; omega)
  refine ⟨fun i reply hreply => ?_, fun i other hi => h.fresh i other ?_⟩
  · rw [ControlServer.respond] at hreply
    obtain hlt | hge := lt_or_ge i s.replies.length
    · obtain ⟨other, hother, htold⟩ := h.told i reply (List.getElem?_append_left hlt ▸ hreply)
      rw [unwritten_eq_nil hidle] at htold
      rw [hothers i hlt]
      exact ⟨other, hother, htold⟩
    · rw [List.getElem?_append_right hge, List.getElem?_singleton] at hreply
      split at hreply
      next heq =>
        obtain rfl : i = s.replies.length := by omega
        obtain rfl := Option.some.inj hreply
        refine ⟨c, hget, Or.inl ?_⟩
        rw [h.fresh _ c le_rfl hget, hlast, List.nil_append]
      next => cases hreply
  · omega

theorem Delivers.leave (h : Delivers s) {rest : Bytes} (hw : s.worker = .writing rest) {c : Connection}
    (hget : s.connections[s.replies.length - 1]? = some c) (hover : rest = [] ∨ c.peer = .reset) :
    Delivers (ControlServer.leave s) := by
  have hidle : ∀ rest, (ControlServer.leave s).worker ≠ .writing rest := by
    intro rest
    rw [ControlServer.leave]
    dsimp only
    split <;> nofun
  refine ⟨fun i reply hreply => ?_, h.fresh⟩
  obtain ⟨other, hother, htold⟩ := h.told i reply hreply
  refine ⟨other, hother, ?_⟩
  rw [unwritten_eq_nil hidle, List.append_nil]
  rw [ServerState.unwritten, hw] at htold
  dsimp only at htold
  split at htold
  next hlast =>
    obtain rfl : c = other := Option.some.inj (hget.symm.trans (by rw [← hlast, Nat.add_sub_cancel]; exact hother))
    obtain htold | ⟨hreset, -, hfront⟩ := htold
    · obtain rfl | hreset := hover
      · rw [List.append_nil] at htold
        exact Or.inl htold
      · exact Or.inr ⟨hreset, rfl, htold ▸ List.prefix_append _ _⟩
    · exact Or.inr ⟨hreset, rfl, hfront⟩
  next =>
    rw [List.append_nil] at htold
    exact htold

theorem Delivers.write (h : Delivers s) {rest : Bytes} (hw : s.worker = .writing rest) (hpos : 0 < s.replies.length)
    (hne : rest ≠ []) (n : Nat) :
    Delivers
      { s.update (s.replies.length - 1) (Connection.write (rest.take n)) with worker := .writing (rest.drop n) } := by
  refine ⟨fun i reply hreply => ?_, fun i c hi hget => ?_⟩
  · obtain ⟨c, hget, htold⟩ := h.told i reply hreply
    dsimp only
    rw [update_get, hget, Option.map_some]
    refine ⟨_, rfl, ?_⟩
    rw [ServerState.unwritten, hw] at htold
    rw [ServerState.unwritten]
    dsimp only at htold ⊢
    change _ ++ (if i + 1 = s.replies.length then rest.drop n else []) = reply ∨
      _ ∧ (if i + 1 = s.replies.length then rest.drop n else []) = [] ∧ _
    by_cases hlast : i + 1 = s.replies.length
    · rw [if_pos hlast] at htold
      have hindex : s.replies.length - 1 = i := by omega
      rw [if_pos hindex, if_pos hlast, Connection.write, List.append_assoc, List.take_append_drop]
      exact Or.inl (htold.resolve_right fun hreset => hne hreset.2.1)
    · rw [if_neg hlast] at htold ⊢
      rw [if_neg (by omega)]
      exact htold
  · dsimp only at hget
    rw [update_get, Option.map_eq_some_iff] at hget
    obtain ⟨before, hget, rfl⟩ := hget
    have hi' : s.replies.length ≤ i := hi
    rw [if_neg (by omega)]
    exact h.fresh i before hi' hget

theorem Delivers.work (h : Delivers s) (hserial : Serial platform codec protocol start s tasks sockets)
    (now : TimePoint) : Delivers (ControlServer.work platform codec protocol s now) := by
  have hplaced := hserial.placed
  rw [Placed] at hplaced
  rw [ControlServer.work]
  cases hw : s.worker with
  | ended => exact h
  | accepting =>
      have hidle : ∀ i, s.unwritten i = [] := unwritten_eq_nil (by simp [hw])
      dsimp only
      split
      · refine h.same rfl rfl fun i => (unwritten_eq_nil (fun rest => ?_) i).trans (hidle i).symm
        dsimp only
        split <;> nofun
      · exact h
  | peeking =>
      rw [hw] at hplaced
      have hidle : ∀ i, s.unwritten i = [] := unwritten_eq_nil (by simp [hw])
      dsimp only at hplaced ⊢
      split
      · exact h.same rfl rfl fun i => (hidle i).symm
      · split
        · exact h
        · exact h.respond (hserial.get_current hplaced) (by simp [hw]) _
  | reading header =>
      rw [hw] at hplaced
      dsimp only
      split
      · exact h
      · exact h.respond (hserial.get_current hplaced.1) (by simp [hw]) _
  | writing rest =>
      rw [hw] at hplaced
      obtain ⟨ha, hpos⟩ := hplaced
      have hget := current_eq hpos hserial.accepted
      rw [ha] at hpos hget
      dsimp only
      split
      next hover => exact h.leave hw hget hover
      next hne =>
        split
        · exact h
        · rw [ha]
          exact h.write hw hpos (fun he => hne (Or.inl he)) _

theorem Delivers.step (h : Delivers s) (hserial : Serial platform codec protocol start s tasks sockets)
    (event : ServerEvent) : Delivers (serverStep platform codec protocol s event) := by
  cases event with
  | connect room => exact h.connect (by simp) s.stopping
  | arrive i bytes =>
      refine h.update i (fun c => ?_) (fun c hreset => ?_)
      · rw [Connection.receive]
        split <;> rfl
      · rw [Connection.receive, if_neg (by rw [hreset]; decide)]
        exact hreset
  | close i =>
      refine h.update i (fun c => ?_) (fun c hreset => ?_)
      · rw [Connection.close]
        split <;> rfl
      · rw [Connection.close, if_neg (by rw [hreset]; decide)]
        exact hreset
  | abort i => exact h.update i (fun c => rfl) (fun c _ => rfl)
  | drain i n => exact h.update i (fun c => rfl) (fun c hreset => hreset)
  | work now => exact h.work hserial now
  | purge now => exact h.same rfl rfl fun i => rfl
  | stop reached =>
      cases reached with
      | true => exact h.connect (by simp) true
      | false => exact h.same rfl rfl fun i => rfl
  | acceptFails =>
      rw [serverStep]
      cases hw : s.worker with
      | accepting => exact h.same rfl rfl fun i => (unwritten_eq_nil (by simp [hw]) i).symm
      | peeking | reading | writing | ended => exact h

end Runs

end BeaconNode.ControlServer
