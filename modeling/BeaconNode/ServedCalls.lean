import BeaconNode.ClientCalls

namespace BeaconNode.ServedCalls

open Words TextStream Records Crypto KeyedList Registry LineProtocol ProtobufControl RecordCodec Framing
  ControlReplies ControlSession SignedRegistry Transports Utf8 PythonIdentity PythonClient PythonText PythonListing
  ListedAgents SdkSync ClientCalls

/-- What the engine answers, whichever way it is written. -/
inductive Answer
  | status (ok : Bool) (message : Bytes) (extra : Status)
  | stats (stats : RegistryStats)
  | agents (records : List AgentRecord)

def submit (sodium : Option Verifier) (protocol : ControlProtocol) (now : TimePoint) (registry : AgentRegistry)
    (registration : Registration) (done : Bytes) (extra : Status) : AgentRegistry × Answer :=
  let record := fromProto protocol.lifecycle now (toProtoAgent registration)
  if signatureAllowed sodium protocol.trust record && admits registry.records record then
    (⟨storeRecord record registry.records, registry.onUpsert ++ [record]⟩, .status true done extra)
  else (registry, .status false (refusal sodium protocol.trust record) extra)

/-- The registry as its clients are meant to see it: a call is one operation
on it, and nothing depends on how the call travels. -/
def serviceStep (server : Server) (registry : AgentRegistry) (c : ClientCall) : AgentRegistry × Answer :=
  let extra := extraOf c.client c.call
  let submit := submit server.platform.sodium server.protocol c.now registry
  match c.call with
  | .register registration => submit (c.client.signed registration) (ascii "registered") extra
  | .merge registration => submit (c.client.signed registration) (ascii "merged") extra
  | .heartbeat agentId revision =>
      let (registry, accepted) := registry.refreshHeartbeat (encode agentId)
        (c.now + milliseconds server.protocol.lifecycle.heartbeatTtl) (UInt64.ofNat revision)
      (registry, .status accepted (if accepted then ascii "heartbeat" else ascii "unknown_or_stale_agent") extra)
  | .listAgents => (registry, .agents registry.list)
  | .syncPull afterRevision limit =>
      (registry, .agents (registry.entriesAfterRevision server.platform.revisionSort (UInt64.ofNat afterRevision)
        (UInt64.ofNat limit)))
  | .stats => (registry, .stats registry.stats)

/-- An agent of the SDK with the fields of a record. -/
structure ShowsRecord (record : AgentRecord) (agent : ListedAgent) : Prop where
  agentId : encode agent.agentId = record.agentId
  nodeId : encode agent.nodeId = record.nodeId
  endpoint : encode agent.endpoint = record.endpoint
  revision : agent.revision = record.revision.toNat
  metadata : ∀ p, p ∈ agent.metadata ↔ ∃ q, encodePair q ∈ record.metadata.entries ∧ p = (q.1, Value.text q.2)
  publicKey : agent.publicKey = decodeHex record.publicKeyHex
  signature : agent.signature = decodeHex record.signatureHex

/-- The reply says what was answered. -/
inductive Shows : Answer → Reply → Prop
  | status {ok : Bool} {message : Str} {extra status : Status}
      (h : ∀ key, status.item key = statusItem ok message extra key) :
      Shows (.status ok (encode message) extra) (.status status)
  | stats {stats : RegistryStats} {status : Status} (h : StatsItems status stats) :
      Shows (.stats stats) (.status status)
  | agents {records : List AgentRecord} {agents : List ListedAgent} (h : List.Forall₂ ShowsRecord records agents) :
      Shows (.agents records) (.agents agents)

/-- The registration has texts that both languages take as one word, none of
which reads as another number. -/
structure Clean (interpreter : Interpreter) (registration : Registration) : Prop where
  agentId : registration.agentId ≠ [] ∧ Unbroken registration.agentId
  nodeId : registration.nodeId ≠ [] ∧ Unbroken registration.nodeId
  endpoint : registration.endpoint ≠ [] ∧ Unbroken registration.endpoint
  metadata : ∀ p ∈ registration.metadata.items, Unbroken p.1 ∧ '=' ∉ p.1 ∧ Unbroken p.2
  revision : registration.revision < 2 ^ 64
  unambiguous : Unambiguous interpreter registration

def Callable (interpreter : Interpreter) : Call → Prop
  | .register registration | .merge registration => Clean interpreter registration
  | .heartbeat agentId revision => agentId ≠ [] ∧ AsciiSpaceFree agentId ∧ revision < 2 ^ 64
  | .syncPull afterRevision limit => afterRevision < 2 ^ 64 ∧ limit < 2 ^ 32
  | .listAgents | .stats => True

def Readable (interpreter : Interpreter) (record : AgentRecord) : Prop :=
  ∃ registration, Listable registration record ∧ Unambiguous interpreter registration

/-- The generated classes carry a request and its response, in frames, and
the first piece of the request holds the header. -/
structure Exchanges (setting : Setting) (node : Node) (c : ClientCall) (request : ControlRequest) : Prop where
  requestSize : (setting.messages.serializeRequest request).length < 2 ^ 32
  requestRead : setting.server.codec.parseRequest (setting.messages.serializeRequest request) = some request
  reply : ∃ serialized,
    setting.server.codec.serializeResponse
      (handleRequest setting.server.platform setting.server.protocol c.now node (some request)).2 = some serialized ∧
      serialized.length < 2 ^ 32 ∧
        setting.messages.parseResponse serialized =
          some (handleRequest setting.server.platform setting.server.protocol c.now node (some request)).2
  header : headerSize ≤
    ((c.sent.cut (encodeFrame ⟨controlRequest, setting.messages.serializeRequest request⟩)).headD []).length

def Carried (setting : Setting) (node : Node) (c : ClientCall) : Prop :=
  c.client.protocol = .protobuf → ∀ request, requestOf c.client c.call = some request →
    Exchanges setting node c request

variable {setting : Setting} {server : Server} {node : Node} {c : ClientCall} {interpreter : Interpreter}
  {registration : Registration} {record : AgentRecord}

theorem encode_line (command : Str) : encode (command ++ str "\n") = encode command ++ [newline] := by
  have hn : encode (str "\n") = [newline] := by decide
  rw [encode_append, hn]

theorem sessionInput_line {line : Bytes} {socket : Socket} (hs : socket.flatten = line ++ [newline])
    (hn : newline ∉ line) (hb : line.head? ≠ some 66) :
    sessionInput true socket = .line line := by
  have hline : readLine socket.flatten = .line line := by
    rw [readLine, hs, if_pos (by simp), firstLine_append line [] hn]
  cases socket with
  | nil => simp at hs
  | cons first rest =>
      cases first with
      | nil => rw [sessionInput_short true (by simp [headerSize]), hline]
      | cons b bs =>
          have hnot : isBinaryFrameHeader ((b :: bs).take headerSize) = false := by
            have hstream : line ++ [newline] = b :: (bs ++ rest.flatten) := by
              rw [← hs, List.flatten_cons, List.cons_append]
            have hfirst : b ≠ 66 := by
              rintro rfl
              cases line with
              | nil => exact absurd (List.cons.inj hstream).1 (by decide)
              | cons d ds => exact hb (congrArg some (List.cons.inj hstream).1)
            have htake : (b :: bs).take headerSize = b :: bs.take 8 := rfl
            rw [isBinaryFrameHeader, htake, List.getD_cons_zero, decide_eq_false hfirst, Bool.false_and]
          simp only [sessionInput, peek, hnot, Bool.and_false, Bool.false_eq_true, if_false, hline]

theorem roundTrip_line {command : Str} (hn : newline ∉ encode command)
    (hb : (encode command).head? ≠ some 66) :
    roundTrip server node c command =
      ((handleLine server.platform server.protocol c.now node (encode command)).1,
        decode (handleLine server.platform server.protocol c.now node (encode command)).2) := by
  have hinput : sessionInput true (c.sent.cut (encode (command ++ str "\n"))) = .line (encode command) := by
    apply sessionInput_line _ hn hb
    rw [c.sent.flatten_cut, encode_line]
  simp only [roundTrip, serveSession, Option.isSome_some, hinput, c.answered.flatten_cut]

theorem sessionInput_request {payload : Bytes} {socket : Socket} (hp : payload.length < 2 ^ 32)
    (hs : socket.flatten = encodeFrame ⟨controlRequest, payload⟩) (hh : headerSize ≤ (socket.headD []).length) :
    sessionInput true socket = .frame (encodeFrame ⟨controlRequest, payload⟩) := by
  cases socket with
  | nil => exact absurd hh (by decide)
  | cons first rest =>
      rw [sessionInput_long hs hh, (take_cut_eq_iff payload).mpr hp]
      exact congrArg SessionInput.frame (List.take_append_drop headerSize _)

theorem serveSession_request {payload serialized : Bytes} {request : ControlRequest} {socket : Socket}
    (hp : payload.length < 2 ^ 32) (hs : socket.flatten = encodeFrame ⟨controlRequest, payload⟩)
    (hh : headerSize ≤ (socket.headD []).length) (hr : server.codec.parseRequest payload = some request)
    (hserialized : server.codec.serializeResponse
      (handleRequest server.platform server.protocol c.now node (some request)).2 = some serialized) :
    serveSession server.platform (some server.codec) server.protocol c.now node socket =
      ((handleRequest server.platform server.protocol c.now node (some request)).1,
        encodeFrame ⟨controlResponse, serialized⟩) := by
  have hdecode : decodeFrame (encodeFrame ⟨controlRequest, payload⟩) = some ⟨controlRequest, payload⟩ :=
    decodeFrame_encodeFrame hp
  simp only [serveSession, Option.isSome_some, sessionInput_request hp hs hh, handleControlFrame, hdecode, ne_eq,
    not_true_eq_false, if_false, handleControlRequestPayload, hr, hserialized, Option.getD_some]

theorem readResponse_reply {messages : MessageClasses} {serialized : Bytes} {response : ControlResponse}
    {answer : Socket} (hsize : serialized.length < 2 ^ 32)
    (ha : answer.flatten = encodeFrame ⟨controlResponse, serialized⟩)
    (hparsed : messages.parseResponse serialized = some response) : readResponse messages answer = .ok response := by
  simp only [readResponse, readReply_encodeFrame hsize ha, hparsed]

theorem encodeFrame_request {payload : Bytes} (hp : payload.length < 2 ^ 32) :
    PythonFraming.encodeFrame ⟨PythonFraming.frameControlRequest, payload⟩ =
      .ok (encodeFrame ⟨controlRequest, payload⟩) := by
  have hfits : (⟨controlRequest, payload⟩ : Framing.Frame).payload.length < 2 ^ 32 := hp
  have hframed := PythonFraming.encodeFrame_ofFrame hfits
  exact hframed

theorem roundTripProto_exchanges {request : ControlRequest} (h : Exchanges setting node c request) :
    roundTripProto setting.server setting.messages node c request =
      ((handleRequest setting.server.platform setting.server.protocol c.now node (some request)).1,
        .ok (handleRequest setting.server.platform setting.server.protocol c.now node (some request)).2) := by
  obtain ⟨serialized, hserialized, hsize, hparsed⟩ := h.reply
  have hserved := serveSession_request h.requestSize (c.sent.flatten_cut _) h.header h.requestRead hserialized
  have hread := readResponse_reply hsize (c.answered.flatten_cut _) hparsed
  rw [roundTripProto, encodeFrame_request h.requestSize, exchange, hserved]
  dsimp only
  rw [hread]

theorem makeCall_line (hp : c.client.protocol = .line) {response : Str}
    (hn : newline ∉ encode (lineOf c.client c.call))
    (hb : (encode (lineOf c.client c.call)).head? ≠ some 66)
    (hresponse : (handleLine setting.server.platform setting.server.protocol c.now node
      (encode (lineOf c.client c.call))).2 = encode response) :
    makeCall setting node c = ((handleLine setting.server.platform setting.server.protocol c.now node
      (encode (lineOf c.client c.call))).1, readText setting.interpreter c.client c.call response) := by
  simp only [makeCall, hp, roundTrip_line hn hb, hresponse, decode_encode]

theorem makeCall_proto (hp : c.client.protocol = .protobuf) {request : ControlRequest}
    (hr : requestOf c.client c.call = some request) (h : Exchanges setting node c request) :
    makeCall setting node c =
      ((handleRequest setting.server.platform setting.server.protocol c.now node (some request)).1,
        readMessage setting.interpreter c.client c.call
          (handleRequest setting.server.platform setting.server.protocol c.now node (some request)).2) := by
  simp only [makeCall, hp, hr, roundTripProto_exchanges h]
  rfl

def Served (setting : Setting) (node : Node) (c : ClientCall) : Prop :=
  (makeCall setting node c).1.registry = (serviceStep setting.server node.registry c).1 ∧
    ∃ reply, (makeCall setting node c).2 = .ok reply ∧ Shows (serviceStep setting.server node.registry c).2 reply

theorem readText_message (interpreter : Interpreter) {client : BeaconClient} {call : Call}
    (hl : call.lists = false) (ok : Bool) {word : String} (hw : word ∈ replyWords) :
    ∃ reply, readText interpreter client call (verdictLine ok (messagePair (str word)) ++ ['\n']) = .ok reply ∧
      Shows (.status ok (ascii word) (extraOf client call)) reply := by
  obtain ⟨status, hread, hitem⟩ :=
    parseStatus_message ok (extra_extraOf client call) (oneWord_of_mem interpreter hw)
  refine ⟨.status status, ?_, encode_replyWord hw ▸ .status hitem⟩
  simp only [readText, hl, Bool.false_eq_true, if_false, hread]
  rfl

theorem readMessage_message (interpreter : Interpreter) {client : BeaconClient} {call : Call}
    (hl : call.lists = false) (ok : Bool) {word : String} (hw : word ∈ replyWords) :
    ∃ reply, readMessage interpreter client call { ok := ok, message := ascii word } = .ok reply ∧
      Shows (.status ok (ascii word) (extraOf client call)) reply := by
  obtain ⟨status, hread, hitem⟩ :=
    parseProtoStatus_message ok (extra_extraOf client call) (oneWord_of_mem interpreter hw)
  refine ⟨.status status, ?_, encode_replyWord hw ▸ .status hitem⟩
  simp only [readMessage, hl, Bool.false_eq_true, if_false, ← encode_replyWord hw, decode_encode, hread]
  rfl

theorem encode_verdictLine_message (ok : Bool) {word : String} (hw : word ∈ replyWords) :
    encode (verdictLine ok (messagePair (str word)) ++ ['\n']) =
      if ok then okResponse (ascii word) else errorResponse (ascii word) := by
  have hok : encode (str "OK message=") = ascii "OK message=" := by decide
  have herr : encode (str "ERR message=") = ascii "ERR message=" := by decide
  have hn : encode ['\n'] = ascii "\n" := by decide
  have hword := encode_replyWord hw
  cases ok with
  | true =>
      have he : verdictLine true (messagePair (str word)) ++ ['\n'] = str "OK message=" ++ (str word ++ ['\n']) := by
        simp [verdictLine, messagePair, pairToken]
        rfl
      rw [he, encode_append, encode_append, hok, hword, hn, if_pos rfl, okResponse, List.append_assoc]
  | false =>
      have he : verdictLine false (messagePair (str word)) ++ ['\n'] = str "ERR message=" ++ (str word ++ ['\n']) := by
        simp [verdictLine, messagePair, pairToken]
        rfl
      rw [he, encode_append, encode_append, herr, hword, hn, if_neg Bool.false_ne_true, errorResponse,
        List.append_assoc]

theorem Clean.signed (h : Clean interpreter registration) (client : BeaconClient) :
    Clean interpreter (client.signed registration) := by
  rw [BeaconClient.signed]
  split
  · exact h
  · exact ⟨h.agentId, h.nodeId, h.endpoint, h.metadata, h.revision,
      ⟨h.unambiguous.agentId, h.unambiguous.nodeId, h.unambiguous.endpoint, h.unambiguous.metadata⟩⟩

theorem asciiSpaceFree_of_unbroken {text : Str} (h : Unbroken text) : AsciiSpaceFree text := by
  intro c hc
  have hspace := h c hc
  simp only [isWhitespace, decide_eq_false_iff_not] at hspace
  refine ⟨fun he => hspace (he ▸ (by decide : 32 ∈ whitespace)), fun hcontrol => hspace ?_⟩
  have hrange : ∀ n, n < 14 → 9 ≤ n → n ∈ whitespace := by decide
  exact hrange _ (by omega) hcontrol.1

theorem Clean.sendable (h : Clean interpreter registration) : Sendable registration where
  agentId_ne := h.agentId.1
  nodeId_ne := h.nodeId.1
  endpoint_ne := h.endpoint.1
  agentId := asciiSpaceFree_of_unbroken h.agentId.2
  nodeId := asciiSpaceFree_of_unbroken h.nodeId.2
  endpoint := asciiSpaceFree_of_unbroken h.endpoint.2
  metadata p hp :=
    ⟨asciiSpaceFree_of_unbroken (h.metadata p hp).1, (h.metadata p hp).2.1,
      asciiSpaceFree_of_unbroken (h.metadata p hp).2.2⟩
  revision := h.revision

theorem fromProto_toProtoAgent (lifecycle : LifecycleConfig) (now : TimePoint) (registration : Registration) :
    fromProto lifecycle now (toProtoAgent registration) =
      (keyedRecord registration).restamp (now + milliseconds lifecycle.heartbeatTtl) :=
  fromProto_eq lifecycle now (toProtoAgent registration)

theorem record_line (h : Sendable registration) {verb : Str} (hv : newline ∉ encode verb) :
    newline ∉ encode (encodeRecordCommand verb registration) := by
  rw [encode_encodeRecordCommand, List.mem_append, not_or]
  refine ⟨hv, fun hm => ?_⟩
  obtain ⟨w, hw, hb⟩ := List.mem_flatMap.mp hm
  rcases List.mem_cons.mp hb with he | hb
  · exact absurd he (by decide)
  · exact (recordTokens_word h.wireSafe (h.mem_recordTokens hw)).2.newline_not_mem hb

theorem accepts_eq (sodium : Option Verifier) (trust : TrustConfig) (node : Node) (record : AgentRecord) :
    accepts sodium trust node record =
      (signatureAllowed sodium trust record && admits node.registry.records record) := rfl

theorem served_line {response : Str} {reply : Reply} {after : Node} {answer : Answer}
    (hp : c.client.protocol = .line) (hn : newline ∉ encode (lineOf c.client c.call))
    (hb : (encode (lineOf c.client c.call)).head? ≠ some 66)
    (hline : handleLine setting.server.platform setting.server.protocol c.now node (encode (lineOf c.client c.call)) =
      (after, encode response))
    (hread : readText setting.interpreter c.client c.call response = .ok reply) (hshows : Shows answer reply)
    (hservice : serviceStep setting.server node.registry c = (after.registry, answer)) : Served setting node c := by
  rw [Served, hservice, makeCall_line hp hn hb (congrArg Prod.snd hline), hline]
  exact ⟨rfl, reply, hread, hshows⟩

theorem served_proto {request : ControlRequest} {response : ControlResponse} {reply : Reply} {after : Node}
    {answer : Answer} (hp : c.client.protocol = .protobuf) (hr : requestOf c.client c.call = some request)
    (hcarried : Carried setting node c)
    (hrequest : handleRequest setting.server.platform setting.server.protocol c.now node (some request) =
      (after, response))
    (hread : readMessage setting.interpreter c.client c.call response = .ok reply) (hshows : Shows answer reply)
    (hservice : serviceStep setting.server node.registry c = (after.registry, answer)) : Served setting node c := by
  rw [Served, hservice, makeCall_proto hp hr (hcarried hp _ hr), hrequest]
  exact ⟨rfl, reply, hread, hshows⟩

theorem served_line_status (ok : Bool) {word : String} {after : Node} (hw : word ∈ replyWords)
    (hp : c.client.protocol = .line) (hl : c.call.lists = false) (hn : newline ∉ encode (lineOf c.client c.call))
    (hb : (encode (lineOf c.client c.call)).head? ≠ some 66)
    (hline : handleLine setting.server.platform setting.server.protocol c.now node (encode (lineOf c.client c.call)) =
      (after, if ok then okResponse (ascii word) else errorResponse (ascii word)))
    (hservice : serviceStep setting.server node.registry c =
      (after.registry, .status ok (ascii word) (extraOf c.client c.call))) : Served setting node c := by
  rw [← encode_verdictLine_message ok hw] at hline
  obtain ⟨reply, hread, hshows⟩ := readText_message setting.interpreter hl ok hw
  exact served_line hp hn hb hline hread hshows hservice

theorem served_proto_status {ok : Bool} {word : String} {after : Node} (hw : word ∈ replyWords)
    (hp : c.client.protocol = .protobuf) (hl : c.call.lists = false) {request : ControlRequest}
    (hr : requestOf c.client c.call = some request) (hcarried : Carried setting node c)
    (hrequest : handleRequest setting.server.platform setting.server.protocol c.now node (some request) =
      (after, { ok := ok, message := ascii word }))
    (hservice : serviceStep setting.server node.registry c =
      (after.registry, .status ok (ascii word) (extraOf c.client c.call))) : Served setting node c := by
  obtain ⟨reply, hread, hshows⟩ := readMessage_message setting.interpreter hl ok hw
  exact served_proto hp hr hcarried hrequest hread hshows hservice

theorem served_line_submit {done : String} (hd : done ∈ replyWords) (hp : c.client.protocol = .line)
    (hl : c.call.lists = false) (hn : newline ∉ encode (lineOf c.client c.call))
    (hb : (encode (lineOf c.client c.call)).head? ≠ some 66)
    (hline : handleLine setting.server.platform setting.server.protocol c.now node (encode (lineOf c.client c.call)) =
      submitRecord setting.server.platform.sodium setting.server.protocol.trust node
        (fromProto setting.server.protocol.lifecycle c.now (toProtoAgent registration)) (ascii done))
    (hservice : serviceStep setting.server node.registry c =
      submit setting.server.platform.sodium setting.server.protocol c.now node.registry registration (ascii done)
        (extraOf c.client c.call)) : Served setting node c := by
  obtain ⟨record, hrecord⟩ : ∃ record,
      fromProto setting.server.protocol.lifecycle c.now (toProtoAgent registration) = record := ⟨_, rfl⟩
  rw [submit, hrecord] at hservice
  rw [hrecord, submitRecord_eq, accepts_eq] at hline
  cases ha : signatureAllowed setting.server.platform.sodium setting.server.protocol.trust record &&
      admits node.registry.records record with
  | true =>
      rw [ha, if_pos rfl] at hline hservice
      exact served_line_status true hd hp hl hn hb hline hservice
  | false =>
      obtain ⟨word, hw, hrefusal⟩ :=
        refusal_word setting.server.platform.sodium setting.server.protocol.trust record
      rw [ha, if_neg Bool.false_ne_true, hrefusal] at hline hservice
      exact served_line_status false hw hp hl hn hb hline hservice

theorem served_proto_submit {done : String} (hd : done ∈ replyWords) (hp : c.client.protocol = .protobuf)
    (hl : c.call.lists = false) (h : Sendable registration) {request : ControlRequest}
    (hr : requestOf c.client c.call = some request) (hcarried : Carried setting node c)
    (hrequest : handleRequest setting.server.platform setting.server.protocol c.now node (some request) =
      submitProto setting.server.platform.sodium setting.server.protocol c.now node (toProtoAgent registration)
        (ascii done))
    (hservice : serviceStep setting.server node.registry c =
      submit setting.server.platform.sodium setting.server.protocol c.now node.registry registration (ascii done)
        (extraOf c.client c.call)) : Served setting node c := by
  have hfields : ¬ ((fromProto setting.server.protocol.lifecycle c.now (toProtoAgent registration)).agentId = [] ∨
      (fromProto setting.server.protocol.lifecycle c.now (toProtoAgent registration)).nodeId = [] ∨
        (fromProto setting.server.protocol.lifecycle c.now (toProtoAgent registration)).endpoint = []) := by
    rintro (he | he | he)
    · exact h.wireSafe.agentId_ne he
    · exact h.addressed.1 he
    · exact h.addressed.2 he
  obtain ⟨record, hrecord⟩ : ∃ record,
      fromProto setting.server.protocol.lifecycle c.now (toProtoAgent registration) = record := ⟨_, rfl⟩
  rw [submit, hrecord] at hservice
  rw [submitProto_eq] at hrequest
  dsimp only at hrequest
  rw [if_neg hfields, hrecord, accepts_eq] at hrequest
  cases ha : signatureAllowed setting.server.platform.sodium setting.server.protocol.trust record &&
      admits node.registry.records record with
  | true =>
      rw [ha, if_pos rfl] at hrequest hservice
      exact served_proto_status hd hp hl hr hcarried hrequest hservice
  | false =>
      obtain ⟨word, hw, hrefusal⟩ :=
        refusal_word setting.server.platform.sodium setting.server.protocol.trust record
      rw [ha, if_neg Bool.false_ne_true, hrefusal] at hrequest hservice
      exact served_proto_status hw hp hl hr hcarried hrequest hservice

theorem encode_heartbeat (client : BeaconClient) (agentId : Str) {revision : Nat} (h : revision < 2 ^ 64) :
    encode (lineOf client (.heartbeat agentId revision)) =
      heartbeatLine (encode agentId) (UInt64.ofNat revision) := by
  have hname : encode (str "HEARTBEAT agent_id=") = ascii "HEARTBEAT agent_id=" := by decide
  have hnumber : encode (str " revision=") = ascii " revision=" := by decide
  have hrevision : (UInt64.ofNat revision).toNat = revision := by
    rw [UInt64.toNat_ofNat']
    exact Nat.mod_eq_of_lt h
  rw [lineOf, heartbeatLine, encode_append, encode_append, encode_append, encode_digits, hname, hnumber, hrevision]

theorem served_heartbeat {agentId : Str} {revision : Nat} (hcall : c.call = .heartbeat agentId revision)
    (h : Callable setting.interpreter c.call) (hcarried : Carried setting node c) : Served setting node c := by
  rw [hcall] at h
  obtain ⟨hne, hfree, hrevision⟩ := h
  obtain ⟨word, accepted, after, hw, hheartbeat, hword⟩ : ∃ word accepted after, word ∈ replyWords ∧
      handleHeartbeat setting.server.protocol.lifecycle c.now node (encode agentId) (UInt64.ofNat revision) =
        (after, accepted) ∧
      (if accepted then ascii "heartbeat" else ascii "unknown_or_stale_agent") = ascii word := by
    obtain ⟨accepted, after, he⟩ : ∃ accepted after, handleHeartbeat setting.server.protocol.lifecycle c.now node
      (encode agentId) (UInt64.ofNat revision) = (after, accepted) := ⟨_, _, rfl⟩
    cases accepted with
    | true => exact ⟨"heartbeat", true, after, by decide, he, rfl⟩
    | false => exact ⟨"unknown_or_stale_agent", false, after, by decide, he, rfl⟩
  have hl : c.call.lists = false := by rw [hcall]; rfl
  have hservice : serviceStep setting.server node.registry c =
      (after.registry, .status accepted (ascii word) (extraOf c.client c.call)) := by
    have haccepted : (handleHeartbeat setting.server.protocol.lifecycle c.now node (encode agentId)
        (UInt64.ofNat revision)).2 = accepted := congrArg Prod.snd hheartbeat
    have hrefresh : node.registry.refreshHeartbeat (encode agentId)
        (c.now + milliseconds setting.server.protocol.lifecycle.heartbeatTtl) (UInt64.ofNat revision) =
          (after.registry, accepted) :=
      Prod.ext (congrArg (fun p => p.1.registry) hheartbeat) haccepted
    simp only [serviceStep, hcall, hrefresh, hword]
  cases hp : c.client.protocol with
  | line =>
      have hencode := encode_heartbeat c.client agentId hrevision
      have hspace : SpaceFree (encode agentId) := encode_spaceFree hfree
      have hagent : encode agentId ≠ [] := fun he => hne (encode_injective (t := []) he)
      have hn : newline ∉ encode (lineOf c.client c.call) := by
        rw [hcall, hencode, heartbeatLine]
        simp only [List.mem_append, not_or]
        exact ⟨⟨⟨by decide, hspace.newline_not_mem⟩, by decide⟩, (decimal_spaceFree _).newline_not_mem⟩
      have hb : (encode (lineOf c.client c.call)).head? ≠ some 66 := by
        rw [hcall, hencode]
        exact fun he => absurd (Option.some.inj he) (by decide)
      refine served_line_status accepted hw hp hl hn hb ?_ hservice
      have hparsed := parseCommand_heartbeatLine setting.server.protocol.lifecycle c.now (UInt64.ofNat revision)
        hspace hagent
      rw [hcall, hencode, handleLine, hparsed]
      simp only [ne_eq, not_true_eq_false, if_false, hheartbeat, ← hword]
      cases accepted with
      | true | false => rfl
  | protobuf =>
      have hr : requestOf c.client c.call = some (.heartbeat (encode agentId) (UInt64.ofNat revision)) := by
        rw [hcall]
        exact if_pos hrevision
      refine served_proto_status hw hp hl hr hcarried ?_ hservice
      simp only [handleRequest, hheartbeat, hword]

theorem encode_stats (stats : RegistryStats) : encode (statsMessage stats) = statsText stats := by
  have hactive : encode (str "active_agents") ++ [equals] = ascii "active_agents=" := by decide
  have hhighest : space :: (encode (str "highest_revision") ++ [equals]) = ascii " highest_revision=" := by decide
  have hspace : encode [' '] = [space] := by decide
  have hcons (text : Str) : encode (' ' :: text) = space :: encode text := by
    have he : ' ' :: text = [' '] ++ text := rfl
    rw [he, encode_append, hspace]
    rfl
  rw [statsMessage, encode_append, hcons, encode_pairToken, encode_pairToken, encode_digits, encode_digits, statsText,
    ← hactive, ← hhighest]
  simp only [List.append_assoc, List.cons_append, List.nil_append]

theorem served_stats (hcall : c.call = .stats) (hcount : node.registry.stats.activeAgents < 2 ^ 64)
    (hcarried : Carried setting node c) : Served setting node c := by
  have hservice : serviceStep setting.server node.registry c = (node.registry, .stats node.registry.stats) := by
    simp only [serviceStep, hcall]
  have hextra : extraOf c.client c.call = [] := by rw [hcall]; rfl
  have hl : c.call.lists = false := by rw [hcall]; rfl
  cases hp : c.client.protocol with
  | line =>
      obtain ⟨status, hread, hitems⟩ := parseStatus_stats setting.interpreter hcount
      have hencode : encode (lineOf c.client c.call) = ascii "STATS" := by
        rw [hcall]
        exact (by decide : encode (str "STATS") = ascii "STATS")
      have hline : handleLine setting.server.platform setting.server.protocol c.now node
          (encode (lineOf c.client c.call)) =
            (node, encode (verdictLine true (statsPairs node.registry.stats) ++ ['\n'])) := by
        have hok : encode (str "OK ") = ascii "OK " := by decide
        have hn : encode ['\n'] = ascii "\n" := by decide
        rw [hencode, verdictLine_stats, encode_append, encode_append, hok, hn, encode_stats]
        rfl
      refine served_line hp (by rw [hencode]; decide) (by rw [hencode]; decide) hline ?_ (.stats hitems) hservice
      simp only [readText, hl, Bool.false_eq_true, if_false, hextra, hread]
      rfl
  | protobuf =>
      obtain ⟨status, hread, hitems⟩ := parseProtoStatus_stats setting.interpreter hcount
      have hr : requestOf c.client c.call = some .stats := by rw [hcall]; rfl
      refine served_proto hp hr hcarried rfl ?_ (.stats hitems) hservice
      simp only [readMessage, hl, Bool.false_eq_true, if_false, ← encode_stats, decode_encode, hextra, hread]
      rfl

end BeaconNode.ServedCalls
