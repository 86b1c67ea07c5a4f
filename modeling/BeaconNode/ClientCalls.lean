import BeaconNode.ControlSession
import BeaconNode.SdkSync
import BeaconNode.SyncRounds
import BeaconNode.Transports

namespace BeaconNode.ClientCalls

open Words TextStream Records Crypto KeyedList Registry LineProtocol ProtobufControl Framing ControlReplies
  ControlSession SignedRegistry Utf8 PythonIdentity PythonClient PythonText PythonListing SdkSync

inductive Item
  | none
  | flag (b : Bool)
  | field (value : Value)
  | registration (registration : Registration)

def Item.truthy : Item → Bool
  | .none => false
  | .flag b => b
  | .field (.text s) => s ≠ []
  | .field (.int n) => n ≠ 0
  | .registration _ => true

abbrev Status := List (Str × Item)

namespace Status

def set (status : Status) (key : Str) (item : Item) : Status := put Prod.fst (key, item) status

def update (status items : Status) : Status := items.foldl (fun status p => status.set p.1 p.2) status

def item (status : Status) (key : Str) : Option Item := (lookup Prod.fst key status).map Prod.snd

end Status

def fieldItems (fields : Fields) : Status := fields.map (fun p => (p.1, .field p.2))

/-- The endpoint is taken out of the extra items and put in first, and an
empty one becomes the empty text. -/
def parseStatus (interpreter : Interpreter) (response : Str) (extra : Status) : Except ValueError Status := do
  let firstLine := if response = [] then str "ERR message=empty_response" else (splitlines response).headD []
  let fields ← parseFields interpreter firstLine
  let result : Status := [(str "ok", .flag ((str "OK").isPrefixOf firstLine)),
    (str "endpoint", (extra.item (str "endpoint")).getD .none)]
  let result := result.update (fieldItems fields)
  let result := result.update (extra.filter (fun p => p.1 ≠ str "endpoint"))
  let endpoint := (result.item (str "endpoint")).getD .none
  pure (result.set (str "endpoint") (if endpoint.truthy then endpoint else .field (.text [])))

/-- A response as the SDK sees it: its message is a str. -/
def parseProtoStatus (interpreter : Interpreter) (ok : Bool) (message : Str) (extra : Status) :
    Except ValueError Status := do
  let fields ← parseFields interpreter (if ok then str "OK " ++ message else str "ERR " ++ message)
  let result : Status := [(str "ok", .flag ok), (str "message", .field (.text message)),
    (str "endpoint", .field (.text []))]
  pure ((result.update (fieldItems fields)).update extra)

/-- The generated classes on the side of the SDK. -/
structure MessageClasses where
  serializeRequest : ControlRequest → Bytes
  parseResponse : Bytes → Option ControlResponse

/-- A way of cutting a stream into the pieces in which it arrives. -/
structure Segmentation where
  cut : Bytes → Socket
  flatten_cut : ∀ stream, (cut stream).flatten = stream

inductive CallError
  | reply (error : ReplyError)
  | frame (error : PythonFraming.FrameError)
  | number
  | undecodable
  | value (error : ValueError)
  deriving DecidableEq

inductive Call
  | register (registration : Registration)
  | merge (registration : Registration)
  | heartbeat (agentId : Str) (revision : Nat)
  | listAgents
  | syncPull (afterRevision limit : Nat)
  | stats

/-- A call, who makes it, what the engine's clock shows then, and how the two
streams of its connection are cut. -/
structure ClientCall where
  client : BeaconClient
  call : Call
  now : TimePoint
  sent : Segmentation
  answered : Segmentation

inductive Reply
  | status (status : Status)
  | agents (agents : List ListedAgent)

structure Setting where
  server : Server
  messages : MessageClasses
  interpreter : Interpreter

def lineOf (client : BeaconClient) : Call → Str
  | .register registration => encodeRegister (client.signed registration)
  | .merge registration => encodeMerge (client.signed registration)
  | .heartbeat agentId revision =>
      str "HEARTBEAT agent_id=" ++ agentId ++ str " revision=" ++ Nat.toDigits 10 revision
  | .listAgents => str "LIST"
  | .syncPull afterRevision limit =>
      str "SYNC_PULL after_revision=" ++ Nat.toDigits 10 afterRevision ++ str " limit=" ++ Nat.toDigits 10 limit
  | .stats => str "STATS"

/-- A number that its field cannot hold raises. -/
def requestOf (client : BeaconClient) : Call → Option ControlRequest
  | .register registration =>
      if registration.revision < 2 ^ 64 then some (.registerAgent (toProtoAgent (client.signed registration))) else none
  | .merge registration =>
      if registration.revision < 2 ^ 64 then some (.syncMerge (toProtoAgent (client.signed registration))) else none
  | .heartbeat agentId revision =>
      if revision < 2 ^ 64 then some (.heartbeat (encode agentId) (UInt64.ofNat revision)) else none
  | .listAgents => some .listAgents
  | .syncPull afterRevision limit =>
      if afterRevision < 2 ^ 64 ∧ limit < 2 ^ 32 then
        some (.syncPull (UInt64.ofNat afterRevision) (UInt32.ofNat limit))
      else none
  | .stats => some .stats

def extraOf (client : BeaconClient) : Call → Status
  | .register registration | .merge registration => [(str "request", .registration (client.signed registration))]
  | .heartbeat agentId _ => [(str "agent_id", .field (.text agentId))]
  | .listAgents | .syncPull _ _ | .stats => []

def Call.lists : Call → Bool
  | .listAgents | .syncPull _ _ => true
  | .register _ | .merge _ | .heartbeat _ _ | .stats => false

def ofRegistration (registration : Registration) : ListedAgent where
  agentId := registration.agentId
  nodeId := registration.nodeId
  endpoint := registration.endpoint
  metadata := registration.metadata.items.map (fun q => (q.1, .text q.2))
  revision := registration.revision
  publicKey := registration.publicKey
  signature := registration.signature

def fromProtoAgents (agents : List ProtobufControl.AgentRegistration) : Option (List ListedAgent) :=
  (agents.mapM fromProtoAgent).map (List.map ofRegistration)

def readText (interpreter : Interpreter) (client : BeaconClient) (call : Call) (response : Str) :
    Except CallError Reply :=
  if call.lists then (parseAgentList interpreter response).mapError .value |>.map .agents
  else (parseStatus interpreter response (extraOf client call)).mapError .value |>.map .status

def readMessage (interpreter : Interpreter) (client : BeaconClient) (call : Call) (response : ControlResponse) :
    Except CallError Reply :=
  if call.lists then
    match fromProtoAgents response.snapshot with
    | none => .error .undecodable
    | some agents => .ok (.agents agents)
  else
    match decode response.message with
    | none => .error .undecodable
    | some message =>
        (parseProtoStatus interpreter response.ok message (extraOf client call)).mapError .value |>.map .status

/-- The client writes a line and reads until the engine closes. -/
def roundTrip (server : Server) (node : Node) (c : ClientCall) (command : Str) : Node × Option Str :=
  let (node, response) := serveSession server.platform (some server.codec) server.protocol c.now node
    (c.sent.cut (encode (command ++ str "\n")))
  (node, decode (c.answered.cut response).flatten)

def readResponse (messages : MessageClasses) (answer : Socket) : Except CallError ControlResponse :=
  match readReply answer with
  | .error error => .error (.reply error)
  | .ok payload =>
      match messages.parseResponse payload with
      | none => .error .undecodable
      | some response => .ok response

/-- A payload too long for its frame raises before anything is sent. -/
def exchange (server : Server) (messages : MessageClasses) (node : Node) (c : ClientCall) :
    Except PythonFraming.FrameError Bytes → Node × Except CallError ControlResponse
  | .error error => (node, .error (.frame error))
  | .ok framed =>
      let (node, answer) :=
        serveSession server.platform (some server.codec) server.protocol c.now node (c.sent.cut framed)
      (node, readResponse messages (c.answered.cut answer))

def roundTripProto (server : Server) (messages : MessageClasses) (node : Node) (c : ClientCall)
    (request : ControlRequest) : Node × Except CallError ControlResponse :=
  exchange server messages node c
    (PythonFraming.encodeFrame ⟨PythonFraming.frameControlRequest, messages.serializeRequest request⟩)

def makeCall (setting : Setting) (node : Node) (c : ClientCall) : Node × Except CallError Reply :=
  match c.client.protocol with
  | .line =>
      let (node, response) := roundTrip setting.server node c (lineOf c.client c.call)
      match response with
      | none => (node, .error .undecodable)
      | some response => (node, readText setting.interpreter c.client c.call response)
  | .protobuf =>
      match requestOf c.client c.call with
      | none => (node, .error .number)
      | some request =>
          let result := roundTripProto setting.server setting.messages node c request
          (result.1, result.2.bind (readMessage setting.interpreter c.client c.call))

theorem item_cons (p : Str × Item) (items : Status) (key : Str) :
    Status.item (p :: items) key = if key = p.1 then some p.2 else items.item key := by
  rw [Status.item, lookup, List.find?_cons]
  by_cases h : key = p.1
  · simp [h]
  · simp [h, Ne.symm h, Status.item, lookup]

theorem item_set (status : Status) (key : Str) (i : Item) (other : Str) :
    (status.set key i).item other = if other = key then some i else status.item other := by
  rw [Status.item, Status.set, lookup_put]
  by_cases h : other = key
  · simp [h]
  · simp [h, Status.item]

theorem item_update {items : Status} (h : (items.map Prod.fst).Nodup) (status : Status) (key : Str) :
    (status.update items).item key = (items.item key).or (status.item key) := by
  induction items generalizing status with
  | nil => rfl
  | cons p ps ih =>
      obtain ⟨hfresh, hrest⟩ := List.nodup_cons.mp h
      have hcons : status.update (p :: ps) = (status.set p.1 p.2).update ps := rfl
      rw [hcons, ih hrest, item_set]
      rw [item_cons]
      by_cases hk : key = p.1
      · subst hk
        have hnone : Status.item ps p.1 = none := by
          rw [Status.item, Option.map_eq_none_iff, lookup_eq_none]
          exact fun q hq he => hfresh (List.mem_map.mpr ⟨q, hq, he⟩)
        rw [hnone, if_pos rfl, if_pos rfl, Option.none_or, Option.some_or]
      · rw [if_neg hk, if_neg hk]

/-- The dictionary that both protocols return for a reply, as a lookup. -/
def statusItem (ok : Bool) (message : Str) (extra : Status) (key : Str) : Option Item :=
  (extra.item key).or (Status.item [(str "ok", .flag ok), (str "message", .field (.text message)),
    (str "endpoint", .field (.text []))] key)

/-- The items that a status repeats are none of those that it reports. -/
structure Extra (extra : Status) : Prop where
  nodup : (extra.map Prod.fst).Nodup
  fresh : ∀ p ∈ extra, p.1 ≠ str "endpoint"

theorem extra_extraOf (client : BeaconClient) (call : Call) : Extra (extraOf client call) := by
  have hone {key : Str} (item : Item) (hk : key ≠ str "endpoint") : Extra [(key, item)] :=
    ⟨List.nodup_singleton _, fun p hp => List.mem_singleton.mp hp ▸ hk⟩
  cases call with
  | register | merge => exact hone _ (by decide)
  | heartbeat => exact hone _ (by decide)
  | listAgents | syncPull | stats => exact ⟨List.nodup_nil, fun p hp => absurd hp List.not_mem_nil⟩

theorem Extra.item_endpoint {extra : Status} (h : Extra extra) : extra.item (str "endpoint") = none := by
  rw [Status.item, Option.map_eq_none_iff, lookup_eq_none]
  exact h.fresh

theorem Extra.filter_eq {extra : Status} (h : Extra extra) : extra.filter (fun p => p.1 ≠ str "endpoint") = extra :=
  List.filter_eq_self.mpr fun p hp => decide_eq_true (h.fresh p hp)

variable {interpreter : Interpreter} {extra : Status}

theorem fieldItems_names (fields : Fields) : (fieldItems fields).map Prod.fst = fields.map Prod.fst := by
  rw [fieldItems, List.map_map]
  rfl

theorem parseStatus_line {response line : Str} {fields : Fields} {rest : List Str} (hextra : Extra extra)
    (hne : response ≠ []) (hlines : splitlines response = line :: rest)
    (hfields : parseFields interpreter line = .ok fields) (hnodup : (fields.map Prod.fst).Nodup)
    (hendpoint : str "endpoint" ∉ fields.map Prod.fst) :
    ∃ status, parseStatus interpreter response extra = .ok status ∧ ∀ key, status.item key =
      if key = str "endpoint" then some (.field (.text [])) else
        (extra.item key).or (((fieldItems fields).item key).or
          (Status.item [(str "ok", .flag ((str "OK").isPrefixOf line))] key)) := by
  have hread : parseStatus interpreter response extra = .ok (Status.set (Status.update (Status.update
      [(str "ok", .flag ((str "OK").isPrefixOf line)), (str "endpoint", .none)] (fieldItems fields)) extra)
        (str "endpoint") (.field (.text []))) := by
    have hitem : Status.item (Status.update (Status.update
        [(str "ok", .flag ((str "OK").isPrefixOf line)), (str "endpoint", .none)] (fieldItems fields)) extra)
          (str "endpoint") = some .none := by
      have hno : (fieldItems fields).item (str "endpoint") = none := by
        rw [Status.item, Option.map_eq_none_iff, lookup_eq_none]
        intro p hp he
        exact hendpoint (he ▸ fieldItems_names fields ▸ List.mem_map_of_mem hp)
      rw [item_update hextra.nodup, hextra.item_endpoint, item_update (by rwa [fieldItems_names]), hno]
      rfl
    simp only [parseStatus, if_neg hne, hlines, List.headD_cons, hfields, hextra.item_endpoint, hextra.filter_eq,
      Option.getD_none, bind, Except.bind, pure, Except.pure, hitem, Option.getD_some, Item.truthy,
      Bool.false_eq_true, if_false]
  refine ⟨_, hread, fun key => ?_⟩
  rw [item_set]
  split
  · rfl
  next hk =>
    rw [item_update hextra.nodup, item_update (by rwa [fieldItems_names])]
    have hbase : Status.item [(str "ok", .flag ((str "OK").isPrefixOf line)), (str "endpoint", .none)] key =
        Status.item [(str "ok", .flag ((str "OK").isPrefixOf line))] key := by
      simp only [Status.item, lookup, List.find?_cons, List.find?_nil, decide_eq_false (Ne.symm hk)]
    rw [hbase]

def replyWords : List String :=
  ["registered", "merged", "heartbeat", "unknown_or_stale_agent", "stale_revision", "missing_signature",
    "invalid_signature", "signature_verification_unsupported"]

/-- A message that both readers leave as it is. -/
structure OneWord (interpreter : Interpreter) (message : Str) : Prop where
  ne : message ≠ []
  unbroken : Unbroken message
  equals_free : '=' ∉ message
  not_number : isDecimal interpreter message = false

theorem not_isDecimal {text : Str} {c : Char} (hc : c ∈ text) (hascii : c.toNat < 128)
    (hdigit : ¬ (48 ≤ c.toNat ∧ c.toNat ≤ 57)) : isDecimal interpreter text = false := by
  have hno : PythonText.isDigit interpreter c = false := by
    rw [PythonText.isDigit, interpreter.ascii_digit c hascii, if_neg hdigit]
    rfl
  rw [isDecimal, Bool.and_eq_false_iff]
  exact Or.inr (List.all_eq_false.mpr ⟨c, hc, by simp [hno]⟩)

theorem oneWord_of_mem (interpreter : Interpreter) {word : String} (h : word ∈ replyWords) :
    OneWord interpreter (str word) := by
  have hwords : ∀ w ∈ replyWords, Unbroken (str w) ∧ '=' ∉ str w ∧
      (str w).any (fun c => decide (c.toNat < 128 ∧ ¬ (48 ≤ c.toNat ∧ c.toNat ≤ 57))) = true := by decide +kernel
  obtain ⟨hunbroken, hequals, hany⟩ := hwords word h
  obtain ⟨c, hc, hdecide⟩ := List.any_eq_true.mp hany
  obtain ⟨hascii, hdigit⟩ := of_decide_eq_true hdecide
  exact ⟨List.ne_nil_of_mem hc, hunbroken, hequals, not_isDecimal hc hascii hdigit⟩

theorem encode_replyWord {word : String} (h : word ∈ replyWords) : encode (str word) = ascii word := by
  have hwords : ∀ w ∈ replyWords, encode (str w) = ascii w := by decide +kernel
  exact hwords word h

theorem refusal_word (sodium : Option Verifier) (trust : TrustConfig) (record : AgentRecord) :
    ∃ word ∈ replyWords, refusal sodium trust record = ascii word := by
  rw [refusal, signatureRefusal]
  split
  next h =>
    cases hs : verifyAgentSignature sodium record with
    | valid => exact absurd hs h.2
    | missing => exact ⟨"missing_signature", by decide, rfl⟩
    | invalid => exact ⟨"invalid_signature", by decide, rfl⟩
    | unsupported => exact ⟨"signature_verification_unsupported", by decide, rfl⟩
  next =>
    split
    · exact ⟨"invalid_signature", by decide, rfl⟩
    · exact ⟨"stale_revision", by decide, rfl⟩

def verdictLine (ok : Bool) (pairs : List (Str × Str)) : Str :=
  str (if ok then "OK" else "ERR") ++ (pairs.map pairToken).flatMap (fun w => ' ' :: w)

structure Spellable (interpreter : Interpreter) (pairs : List (Str × Str)) : Prop where
  names : (pairs.map Prod.fst).Nodup
  equals_free : ∀ p ∈ pairs, '=' ∉ p.1
  unbroken : ∀ p ∈ pairs, Unbroken (pairToken p)
  readable : ∀ p ∈ pairs, ¬ Raises interpreter p

variable {pairs : List (Str × Str)}

def pairFields (interpreter : Interpreter) (pairs : List (Str × Str)) : Fields :=
  pairs.map (fun p => (p.1, valueOf interpreter p))

theorem pairFields_names (interpreter : Interpreter) (pairs : List (Str × Str)) :
    (pairFields interpreter pairs).map Prod.fst = pairs.map Prod.fst := by
  rw [pairFields, List.map_map]
  rfl

theorem Spellable.token (h : Spellable interpreter pairs) :
    ∀ w ∈ pairs.map pairToken, w ≠ [] ∧ Unbroken w := by
  intro w hw
  obtain ⟨p, hp, rfl⟩ := List.mem_map.mp hw
  exact ⟨by simp [pairToken], h.unbroken p hp⟩

theorem unbroken_verdict (ok : Bool) : Unbroken (str (if ok then "OK" else "ERR")) := by
  cases ok with
  | true | false => decide

theorem parseFields_verdictLine (ok : Bool) (h : Spellable interpreter pairs) :
    parseFields interpreter (verdictLine ok pairs) = .ok (pairFields interpreter pairs) := by
  have hverb : str (if ok then "OK" else "ERR") ≠ [] := by
    cases ok with
    | true | false => decide
  have hno : ¬ ∃ p ∈ pairs, Raises interpreter p := fun ⟨p, hp, hr⟩ => h.readable p hp hr
  have hsplit : PythonText.split (verdictLine ok pairs) =
      str (if ok then "OK" else "ERR") :: pairs.map pairToken :=
    wordsFrom_words _ _ ⟨hverb, unbroken_verdict ok⟩ h.token
  rw [PythonListing.parseFields, hsplit, List.drop_one, List.tail_cons,
    foldlM_pairs pairs h.equals_free [] (by simpa using h.names), if_neg hno, List.nil_append]
  rfl

theorem words_one_line {first : Str} {words : List Str} (hf : Unbroken first) (h : ∀ w ∈ words, Unbroken w) :
    ∀ c ∈ first ++ words.flatMap (fun w => ' ' :: w), isLineBoundary c = false := by
  intro c hc
  rcases List.mem_append.mp hc with hc | hc
  · exact hf.isLineBoundary hc
  · obtain ⟨w, hw, hc⟩ := List.mem_flatMap.mp hc
    rcases List.mem_cons.mp hc with rfl | hc
    · decide
    · exact (h w hw).isLineBoundary hc

theorem verdictLine_one_line (ok : Bool) (h : Spellable interpreter pairs) :
    ∀ c ∈ verdictLine ok pairs, isLineBoundary c = false :=
  words_one_line (unbroken_verdict ok) fun w hw => (h.token w hw).2

theorem verdictLine_ok (ok : Bool) (pairs : List (Str × Str)) :
    (str "OK").isPrefixOf (verdictLine ok pairs) = ok := by
  cases ok with
  | true => exact isPrefixOf_append (str "OK") _
  | false => rfl

theorem parseStatus_verdictLine (ok : Bool) (hextra : Extra extra) (h : Spellable interpreter pairs)
    (hendpoint : str "endpoint" ∉ pairs.map Prod.fst) :
    ∃ status, parseStatus interpreter (verdictLine ok pairs ++ ['\n']) extra = .ok status ∧ ∀ key, status.item key =
      if key = str "endpoint" then some (.field (.text [])) else
        (extra.item key).or (((fieldItems (pairFields interpreter pairs)).item key).or
          (Status.item [(str "ok", .flag ok)] key)) := by
  have hlines : splitlines (verdictLine ok pairs ++ ['\n']) = [verdictLine ok pairs] :=
    linesFrom_line [] _ (verdictLine_one_line ok h) []
  have hread := parseStatus_line hextra (by simp) hlines (parseFields_verdictLine ok h)
    (by rw [pairFields_names]; exact h.names) (by rwa [pairFields_names])
  rwa [verdictLine_ok] at hread

theorem item_nil (key : Str) : Status.item [] key = none := rfl

def messagePair (message : Str) : List (Str × Str) := [(str "message", message)]

theorem spellable_message {message : Str} (h : OneWord interpreter message) :
    Spellable interpreter (messagePair message) where
  names := List.nodup_singleton _
  equals_free p hp := List.mem_singleton.mp hp ▸ (by decide : '=' ∉ str "message")
  unbroken p hp := by
    rw [List.mem_singleton.mp hp]
    have hname : Unbroken (str "message" ++ ['=']) := by decide
    have hpair : pairToken (str "message", message) = (str "message" ++ ['=']) ++ message := by simp [pairToken]
    exact hpair ▸ hname.append h.unbroken
  readable p hp := by
    rw [List.mem_singleton.mp hp]
    rintro ⟨-, -, hd, -⟩
    exact Bool.false_ne_true (h.not_number.symm.trans hd)

theorem parseStatus_message (ok : Bool) {message : Str} (hextra : Extra extra) (h : OneWord interpreter message) :
    ∃ status, parseStatus interpreter (verdictLine ok (messagePair message) ++ ['\n']) extra = .ok status ∧
      ∀ key, status.item key = statusItem ok message extra key := by
  obtain ⟨status, hread, hitem⟩ := parseStatus_verdictLine ok hextra (spellable_message h)
    (by decide : str "endpoint" ∉ [str "message"])
  refine ⟨status, hread, fun key => ?_⟩
  have hvalue : fieldItems (pairFields interpreter (messagePair message)) =
      [(str "message", .field (.text message))] := by
    have hname : ¬ (str "message" = str "public_key" ∨ str "message" = str "signature") := by decide
    have htext : valueOf interpreter (str "message", message) = .text message := by
      rw [valueOf, if_neg hname, if_neg (by simp [h.not_number])]
    simp only [fieldItems, pairFields, messagePair, List.map_cons, List.map_nil, htext]
  rw [hitem, hvalue, statusItem]
  simp only [item_cons, item_nil]
  by_cases hendpoint : key = str "endpoint"
  · subst hendpoint
    rw [if_pos rfl, hextra.item_endpoint]
    rfl
  · rw [if_neg hendpoint, if_neg hendpoint]
    by_cases hok : key = str "ok"
    · subst hok
      rfl
    · rw [if_neg hok, Option.or_none]
      simp only [if_neg hok]

theorem parseFields_word (ok : Bool) {message : Str} (h : OneWord interpreter message) :
    PythonListing.parseFields interpreter (if ok then str "OK " ++ message else str "ERR " ++ message) = .ok [] := by
  have hsplit : PythonText.split (if ok then str "OK " ++ message else str "ERR " ++ message) =
      [if ok then str "OK" else str "ERR", message] := by
    have hwords (verb : Str) (hv : verb ≠ [] ∧ Unbroken verb) :
        PythonText.split (verb ++ ' ' :: message) = [verb, message] := by
      have hone := wordsFrom_words verb [message] hv fun w hw => List.mem_singleton.mp hw ▸ ⟨h.ne, h.unbroken⟩
      simpa [PythonText.split] using hone
    cases ok with
    | true => exact hwords (str "OK") (by decide)
    | false => exact hwords (str "ERR") (by decide)
  rw [PythonListing.parseFields, hsplit, List.drop_one, List.tail_cons, List.foldlM_cons, parseToken,
    if_pos h.equals_free]
  rfl

theorem parseProtoStatus_message (ok : Bool) {message : Str} (hextra : Extra extra)
    (h : OneWord interpreter message) :
    ∃ status, parseProtoStatus interpreter ok message extra = .ok status ∧
      ∀ key, status.item key = statusItem ok message extra key := by
  refine ⟨Status.update [(str "ok", .flag ok), (str "message", .field (.text message)),
    (str "endpoint", .field (.text []))] extra, ?_, fun key => item_update hextra.nodup _ key⟩
  simp only [parseProtoStatus, parseFields_word ok h, bind, Except.bind, pure, Except.pure]
  rfl

def statsPairs (stats : RegistryStats) : List (Str × Str) :=
  [(str "active_agents", Nat.toDigits 10 stats.activeAgents),
    (str "highest_revision", Nat.toDigits 10 stats.highestRevision.toNat)]

/-- The numbers are there, whichever protocol the reply came over. The text of
the message is there over protobuf only. -/
structure StatsItems (status : Status) (stats : RegistryStats) : Prop where
  ok : status.item (str "ok") = some (.flag true)
  endpoint : status.item (str "endpoint") = some (.field (.text []))
  activeAgents : status.item (str "active_agents") = some (.field (.int stats.activeAgents))
  highestRevision : status.item (str "highest_revision") = some (.field (.int stats.highestRevision.toNat))

variable {stats : RegistryStats}

theorem not_raises_digits {name : Str} {n : Nat} (h : n < 2 ^ 64) :
    ¬ Raises interpreter (name, Nat.toDigits 10 n) := by
  rintro ⟨-, -, -, hlimit, hlong⟩
  have hdigits : (Nat.toDigits 10 n).length ≤ 20 := (Nat.length_toDigits_le_iff (by decide) (by decide)).mpr (by omega)
  rcases interpreter.maxStrDigits_large with hzero | hlarge
  · exact hlimit hzero
  · change interpreter.maxStrDigits < (Nat.toDigits 10 n).length at hlong
    omega

theorem spellable_stats (interpreter : Interpreter) (h : stats.activeAgents < 2 ^ 64) :
    Spellable interpreter (statsPairs stats) where
  names := by
    have hnames : (statsPairs stats).map Prod.fst = [str "active_agents", str "highest_revision"] := rfl
    exact hnames ▸ (by decide)
  equals_free p hp := by
    simp only [statsPairs, List.mem_cons, List.not_mem_nil, or_false] at hp
    rcases hp with rfl | rfl
    · exact (by decide : '=' ∉ str "active_agents")
    · exact (by decide : '=' ∉ str "highest_revision")
  unbroken p hp := by
    have hpair (name : Str) (n : Nat) (hn : Unbroken (name ++ ['='])) :
        Unbroken (pairToken (name, Nat.toDigits 10 n)) := by
      have he : pairToken (name, Nat.toDigits 10 n) = (name ++ ['=']) ++ Nat.toDigits 10 n := by simp [pairToken]
      exact he ▸ hn.append (unbroken_digits n)
    simp only [statsPairs, List.mem_cons, List.not_mem_nil, or_false] at hp
    rcases hp with rfl | rfl
    · exact hpair _ _ (by decide)
    · exact hpair _ _ (by decide)
  readable p hp := by
    simp only [statsPairs, List.mem_cons, List.not_mem_nil, or_false] at hp
    rcases hp with rfl | rfl
    · exact not_raises_digits h
    · exact not_raises_digits stats.highestRevision.toNat_lt

theorem statsFields (interpreter : Interpreter) (stats : RegistryStats) :
    fieldItems (pairFields interpreter (statsPairs stats)) =
      [(str "active_agents", .field (.int stats.activeAgents)),
        (str "highest_revision", .field (.int stats.highestRevision.toNat))] := by
  have hvalue (name : Str) (n : Nat) (hname : ¬ (name = str "public_key" ∨ name = str "signature")) :
      valueOf interpreter (name, Nat.toDigits 10 n) = .int n := by
    rw [valueOf, if_neg hname, if_pos (ListedAgents.isDecimal_toDigits n), ListedAgents.digitsValue_toDigits]
  simp only [fieldItems, pairFields, statsPairs, List.map_cons, List.map_nil]
  rw [hvalue _ _ (by decide), hvalue _ _ (by decide)]

theorem parseStatus_stats (interpreter : Interpreter) (h : stats.activeAgents < 2 ^ 64) :
    ∃ status, parseStatus interpreter (verdictLine true (statsPairs stats) ++ ['\n']) [] = .ok status ∧
      StatsItems status stats := by
  have hendpoint : str "endpoint" ∉ (statsPairs stats).map Prod.fst :=
    (by decide : str "endpoint" ∉ [str "active_agents", str "highest_revision"])
  have hextra : Extra [] := ⟨List.nodup_nil, fun p hp => absurd hp List.not_mem_nil⟩
  obtain ⟨status, hread, hitem⟩ := parseStatus_verdictLine true hextra (spellable_stats interpreter h) hendpoint
  rw [statsFields] at hitem
  exact ⟨status, hread, hitem _, hitem _, hitem _, hitem _⟩

def statsMessage (stats : RegistryStats) : Str :=
  pairToken (str "active_agents", Nat.toDigits 10 stats.activeAgents) ++
    ' ' :: pairToken (str "highest_revision", Nat.toDigits 10 stats.highestRevision.toNat)

theorem verdictLine_stats (stats : RegistryStats) :
    verdictLine true (statsPairs stats) = str "OK " ++ statsMessage stats := by
  have hok : str "OK " = str "OK" ++ [' '] := rfl
  simp [verdictLine, statsPairs, statsMessage, hok]

theorem parseProtoStatus_stats (interpreter : Interpreter) (h : stats.activeAgents < 2 ^ 64) :
    ∃ status, parseProtoStatus interpreter true (statsMessage stats) [] = .ok status ∧ StatsItems status stats := by
  have hfields := parseFields_verdictLine true (spellable_stats interpreter h)
  rw [verdictLine_stats] at hfields
  have hread : parseProtoStatus interpreter true (statsMessage stats) [] = .ok
      (Status.update (Status.update [(str "ok", .flag true), (str "message", .field (.text (statsMessage stats))),
        (str "endpoint", .field (.text []))] (fieldItems (pairFields interpreter (statsPairs stats)))) []) := by
    simp only [parseProtoStatus, if_true, hfields, bind, Except.bind, pure, Except.pure]
  exact ⟨_, hread, by rw [statsFields]; exact ⟨rfl, rfl, rfl, rfl⟩⟩

end BeaconNode.ClientCalls
