import BeaconNode.ListingCalls
import BeaconNode.Runs

namespace BeaconNode.ClientRuns

open Words TextStream OrderedMap Records Crypto KeyedList Registry LineProtocol ProtobufControl Framing SyncClient
  SyncRounds SignedRegistry ControlReplies Transports Utf8 PythonIdentity PythonClient PythonText PythonListing
  ListedAgents SdkSync ClientCalls ServedCalls ListingCalls Runs

variable {setting : Setting} {server : Server} {registry : AgentRegistry} {node : Node} {c : ClientCall}
  {interpreter : Interpreter} {registration : Registration} {record : AgentRecord} {records : List AgentRecord}

def Listed (interpreter : Interpreter) (registry : AgentRegistry) : Prop :=
  ∀ r ∈ registry.records, Readable interpreter r

theorem served_listing (hl : c.call.lists = true) (hcall : Callable setting.interpreter c.call)
    (h : Listed setting.interpreter node.registry) (hcarried : Carried setting node c) : Served setting node c := by
  obtain ⟨agents, hmade, hshows⟩ := makeCall_lists hl hcall (fun r hr => readAs_of_readable (h r hr)) hcarried
  rw [Served, hmade]
  cases hc : c.call with
  | listAgents | syncPull =>
      rw [hc] at hshows
      simp only [serviceStep, hc]
      exact ⟨trivial, _, rfl, .agents hshows⟩
  | register | merge | heartbeat | stats =>
      rw [hc] at hl
      cases hl

theorem served_submission {verb : Str} {action : ControlAction} {done : String} {request : ControlRequest}
    (hd : done ∈ replyWords) (hl : c.call.lists = false) (h : Sendable (c.client.signed registration))
    (hcarried : Carried setting node c)
    (hline : lineOf c.client c.call = encodeRecordCommand verb (c.client.signed registration))
    (hverb : encode verb ≠ [] ∧ SpaceFree (encode verb)) (hb : (encode verb).head? ≠ some 66)
    (hstart : startCommand setting.server.protocol.lifecycle c.now (encode verb) =
      { action := action, registration :=
        { expiresAt := c.now + milliseconds setting.server.protocol.lifecycle.heartbeatTtl } })
    (hsubmit : ∀ line, (parseCommand setting.server.protocol.lifecycle c.now line).error = [] →
      (parseCommand setting.server.protocol.lifecycle c.now line).action = action →
        handleLine setting.server.platform setting.server.protocol c.now node line =
          submitRecord setting.server.platform.sodium setting.server.protocol.trust node
            (parseCommand setting.server.protocol.lifecycle c.now line).registration (ascii done))
    (hr : requestOf c.client c.call = some request)
    (hrequest : handleRequest setting.server.platform setting.server.protocol c.now node (some request) =
      submitProto setting.server.platform.sodium setting.server.protocol c.now node
        (toProtoAgent (c.client.signed registration)) (ascii done))
    (hservice : serviceStep setting.server node.registry c =
      submit setting.server.platform.sodium setting.server.protocol c.now node.registry (c.client.signed registration)
        (ascii done) (extraOf c.client c.call)) : Served setting node c := by
  cases hp : c.client.protocol with
  | line =>
      have hparsed := parseCommand_command h setting.server.protocol.lifecycle c.now hverb.1 hverb.2 hstart
      refine served_line_submit hd hp hl ?_ ?_ ?_ hservice
      · rw [hline]
        exact record_line h hverb.2.newline_not_mem
      · rwa [hline, encode_encodeRecordCommand, List.head?_append_of_ne_nil _ hverb.1]
      · rw [hline, hsubmit _ (by rw [hparsed]) (by rw [hparsed]), hparsed, fromProto_toProtoAgent]
  | protobuf => exact served_proto_submit hd hp hl h hr hcarried hrequest hservice

theorem served_record (hcall : c.call = .register registration ∨ c.call = .merge registration)
    (h : Clean setting.interpreter registration) (hcarried : Carried setting node c) : Served setting node c := by
  have hsendable := (h.signed c.client).sendable
  rcases hcall with hcall | hcall
  · have hr : requestOf c.client c.call = some (.registerAgent (toProtoAgent (c.client.signed registration))) := by
      rw [hcall]
      exact if_pos h.revision
    have hline : lineOf c.client c.call = encodeRecordCommand (str "REGISTER") (c.client.signed registration) := by
      rw [hcall]
      rfl
    refine served_submission (by decide) (by rw [hcall]; rfl) hsendable hcarried hline (by decide) (by decide) rfl ?_
      hr rfl (by simp only [serviceStep, hcall])
    intro line he ha
    simp [handleLine, he, ha]
  · have hr : requestOf c.client c.call = some (.syncMerge (toProtoAgent (c.client.signed registration))) := by
      rw [hcall]
      exact if_pos h.revision
    have hline : lineOf c.client c.call = encodeRecordCommand (str "MERGE") (c.client.signed registration) := by
      rw [hcall]
      rfl
    refine served_submission (by decide) (by rw [hcall]; rfl) hsendable hcarried hline (by decide) (by decide) rfl ?_
      hr rfl (by simp only [serviceStep, hcall])
    intro line he ha
    simp [handleLine, he, ha]

theorem served_call (h : Callable setting.interpreter c.call) (hlisted : Listed setting.interpreter node.registry)
    (hcount : node.registry.records.length < 2 ^ 64) (hcarried : Carried setting node c) : Served setting node c := by
  cases hcall : c.call with
  | register registration =>
      rw [hcall] at h
      exact served_record (Or.inl hcall) h hcarried
  | merge registration =>
      rw [hcall] at h
      exact served_record (Or.inr hcall) h hcarried
  | heartbeat agentId revision => exact served_heartbeat hcall h hcarried
  | listAgents => exact served_listing (by rw [hcall]; rfl) h hlisted hcarried
  | syncPull afterRevision limit => exact served_listing (by rw [hcall]; rfl) h hlisted hcarried
  | stats => exact served_stats hcall hcount hcarried

theorem readable_keyedRecord (h : Clean interpreter registration) (t : TimePoint) :
    Readable interpreter ((keyedRecord registration).restamp t) := by
  have hlistable := listable_keyedRecord h.revision h.agentId.2 h.nodeId.2 h.endpoint.2 h.metadata
  exact ⟨registration, { hlistable with encodes := { hlistable.encodes with } }, h.unambiguous⟩

theorem readable_refreshed (h : Readable interpreter record) (expiresAt : TimePoint) (revision : UInt64) :
    Readable interpreter { record with expiresAt := expiresAt, revision := revision } := by
  obtain ⟨registration, hlistable, hu⟩ := h
  refine ⟨{ registration with revision := revision.toNat }, { hlistable with encodes := ?_ },
    ⟨hu.agentId, hu.nodeId, hu.endpoint, hu.metadata⟩⟩
  exact { hlistable.encodes with revision := rfl }

theorem submit_listed (h : Listed interpreter registry)
    (hclean : Clean interpreter registration) (now : TimePoint) (done : Bytes) (extra : Status) :
    Listed interpreter
      (submit server.platform.sodium server.protocol now registry registration done extra).1 := by
  rw [submit, fromProto_toProtoAgent]
  split
  · intro r hr
    rcases mem_put hr with rfl | hr
    · exact readable_keyedRecord hclean _
    · exact h r hr
  · exact h

theorem serviceStep_listed (h : Listed interpreter registry)
    (hcall : Callable interpreter c.call) : Listed interpreter (serviceStep server registry c).1 := by
  cases hc : c.call with
  | register registration | merge registration =>
      rw [hc] at hcall
      have hclean : Clean interpreter registration := hcall
      simp only [serviceStep, hc]
      exact submit_listed h (hclean.signed c.client) c.now _ _
  | heartbeat agentId revision =>
      simp only [serviceStep, hc, AgentRegistry.refreshHeartbeat]
      intro r hr
      cases hrefresh : refreshRecords registry.records (encode agentId)
          (c.now + milliseconds server.protocol.lifecycle.heartbeatTtl) (UInt64.ofNat revision) with
      | none =>
          rw [hrefresh] at hr
          exact h r hr
      | some records =>
          rw [hrefresh] at hr
          rw [refreshRecords] at hrefresh
          split at hrefresh
          · cases hrefresh
          · split at hrefresh
            · cases hrefresh
            · cases hrefresh
              rcases mem_modifyFirst hr with ⟨x, hx, rfl⟩ | hr
              · exact readable_refreshed (h x (lookup_mem hx)) _ _
              · exact h r hr
  | listAgents | syncPull | stats =>
      simp only [serviceStep, hc]
      exact h

theorem modifyFirst_length (k : Bytes) (f : AgentRecord → AgentRecord) (hf : ∀ r, r.agentId = k → (f r).agentId = k)
    (records : List AgentRecord) : (modifyFirst AgentRecord.agentId k f records).length = records.length := by
  simpa using congrArg List.length (modifyFirst_keys k f hf records)

theorem storeRecord_length (record : AgentRecord) (records : List AgentRecord) :
    (storeRecord record records).length =
      records.length + if (findRecord record.agentId records).isNone then 1 else 0 := by
  rw [storeRecord, put, ← findRecord]
  cases findRecord record.agentId records with
  | none =>
      rw [List.length_append, List.length_singleton]
      rfl
  | some existing => exact modifyFirst_length _ _ (fun _ _ => rfl) _

theorem refreshHeartbeat_length (registry : AgentRegistry) (agentId : Bytes) (expiresAt : TimePoint)
    (revision : UInt64) :
    (registry.refreshHeartbeat agentId expiresAt revision).1.records.length = registry.records.length := by
  simp only [AgentRegistry.refreshHeartbeat, refreshRecords]
  cases findRecord agentId registry.records with
  | none => rfl
  | some existing =>
      by_cases hstale : revision < existing.revision
      · simp only [if_pos hstale]
      · simp only [if_neg hstale]
        exact modifyFirst_length agentId (fun r => { r with expiresAt := expiresAt, revision := revision })
          (fun _ hr => hr) registry.records

theorem serviceStep_length (server : Server) (registry : AgentRegistry) (c : ClientCall) :
    (serviceStep server registry c).1.records.length ≤ registry.records.length + 1 := by
  cases hc : c.call with
  | register registration | merge registration =>
      simp only [serviceStep, hc, submit]
      split
      · rw [storeRecord_length]
        split <;> omega
      · exact Nat.le_succ _
  | heartbeat agentId revision =>
      simp only [serviceStep, hc, refreshHeartbeat_length]
      exact Nat.le_succ _
  | listAgents | syncPull | stats =>
      simp only [serviceStep, hc]
      exact Nat.le_succ _

def replies (setting : Setting) : Node → List ClientCall → List (Except CallError Reply)
  | _, [] => []
  | node, c :: calls => (makeCall setting node c).2 :: replies setting (makeCall setting node c).1 calls

def answers (server : Server) : AgentRegistry → List ClientCall → List Answer
  | _, [] => []
  | registry, c :: calls => (serviceStep server registry c).2 :: answers server (serviceStep server registry c).1 calls

/-- Whatever clients call, in either protocol, under whatever identities and
however the connections are cut, the engine's registry goes through the states
of the service, and each reply says what the service answers. -/
theorem sdk_runs_served (setting : Setting) (node : Node) (calls : List ClientCall)
    (hlisted : Listed setting.interpreter node.registry) (hcalls : ∀ c ∈ calls, Callable setting.interpreter c.call)
    (hcount : node.registry.records.length + calls.length ≤ 2 ^ 64)
    (hcarried : Along (fun node c => (makeCall setting node c).1) (Carried setting) node calls) :
    (calls.foldl (fun node c => (makeCall setting node c).1) node).registry =
        calls.foldl (fun registry c => (serviceStep setting.server registry c).1) node.registry ∧
      List.Forall₂ (fun answer reply => ∃ r, reply = .ok r ∧ Shows answer r)
        (answers setting.server node.registry calls) (replies setting node calls) := by
  induction calls generalizing node with
  | nil => exact ⟨rfl, .nil⟩
  | cons c calls ih =>
      obtain ⟨hfirst, hrest⟩ := along_cons.mp hcarried
      have hcall := hcalls c (by simp)
      rw [List.length_cons] at hcount
      obtain ⟨hregistry, hreply⟩ := served_call hcall hlisted (by omega) hfirst
      have hlength := serviceStep_length setting.server node.registry c
      have hnext := ih (makeCall setting node c).1 (by rw [hregistry]; exact serviceStep_listed hlisted hcall)
        (fun d hd => hcalls d (by simp [hd])) (by rw [hregistry]; omega) hrest
      rw [hregistry] at hnext
      exact ⟨hnext.1, .cons hreply hnext.2⟩

/-- One client signs and speaks protobuf, the other two lines. -/
def keyHolder : BeaconClient where
  identity := some ⟨List.replicate 32 7, fun _ => List.replicate 64 9⟩

def onlooker : BeaconClient := { protocol := .line }

def whole : Segmentation := ⟨fun stream => [stream], fun stream => List.append_nil stream⟩

def bytewise : Segmentation where
  cut stream := stream.map fun b => [b]
  flatten_cut stream := by
    induction stream with
    | nil => rfl
    | cons b bs ih => exact congrArg (List.cons b) ih

def sampleRegistration : Registration where
  agentId := str "agent-1"
  nodeId := str "n"
  endpoint := str "e:1"
  metadata := ⟨[], List.nodup_nil⟩

/-- The wire format, as far as the calls below use it. -/
def sampleMessages : MessageClasses where
  serializeRequest
    | .registerAgent proto => if proto = sampleProto then samplePayload else []
    | _ => []
  parseResponse
    | 8 :: 1 :: 18 :: length :: message =>
        if length.toNat = message.length then some { ok := true, message := message } else none
    | _ => none

def sampleSetting : Setting := ⟨sampleServer, sampleMessages, cpython⟩

def sampleCall : ClientCall := ⟨keyHolder, .register sampleRegistration, 0, whole, bytewise⟩

def sampleCalls : List ClientCall :=
  [sampleCall, ⟨onlooker, .heartbeat (str "agent-1") 2, 5, bytewise, whole⟩,
    ⟨onlooker, .listAgents, 6, bytewise, bytewise⟩]

theorem sampleRegistration_clean : Clean cpython sampleRegistration where
  agentId := by decide
  nodeId := by decide
  endpoint := by decide
  metadata p hp := absurd hp List.not_mem_nil
  revision := by decide
  unambiguous := ⟨Or.inl (by decide), Or.inl (by decide), Or.inl (by decide), fun q hq => absurd hq List.not_mem_nil⟩

theorem sampleCalls_callable : ∀ c ∈ sampleCalls, Callable cpython c.call := by
  simp only [sampleCalls, List.forall_mem_cons]
  exact ⟨sampleRegistration_clean, ⟨by decide, by decide, by decide⟩, trivial, fun c hc => absurd hc List.not_mem_nil⟩

theorem sampleRegistration_signed : toProtoAgent (keyHolder.signed sampleRegistration) = sampleProto := by decide

theorem sampleCall_response :
    (handleRequest sampleSetting.server.platform sampleSetting.server.protocol sampleCall.now {}
      (some (.registerAgent sampleProto))).2 = { ok := true, message := ascii "registered" } := by
  have haccepts : accepts sampleSetting.server.platform.sodium sampleSetting.server.protocol.trust {}
      (fromProto sampleSetting.server.protocol.lifecycle sampleCall.now sampleProto) = true := by decide +kernel
  simp only [handleRequest, submitProto_eq, haccepts, if_neg (sampleProto_lineSafe.fields _ _), if_true]

theorem whole_header (frame : Framing.Frame) : headerSize ≤ ((whole.cut (encodeFrame frame)).headD []).length := by
  rw [whole, List.headD_cons, encodeFrame_length]
  exact Nat.le_add_right _ _

theorem sampleCall_exchange : Exchanges sampleSetting {} sampleCall (.registerAgent sampleProto) where
  requestSize := by decide +kernel
  requestRead := sampleCodec_parses
  reply := by
    rw [sampleCall_response]
    exact ⟨[8, 1, 18, 10] ++ ascii "registered", by decide, by decide, rfl⟩
  header := whole_header _

theorem sampleCalls_carried :
    Along (fun node c => (makeCall sampleSetting node c).1) (Carried sampleSetting) {} sampleCalls := by
  have honlooker {c : ClientCall} (node : Node) (hc : c.client = onlooker) : Carried sampleSetting node c := by
    intro hp
    rw [hc] at hp
    cases hp
  rw [sampleCalls, along_cons, along_cons, along_cons]
  refine ⟨fun _ request hr => ?_, honlooker _ rfl, honlooker _ rfl, along_nil⟩
  have hrequest : request = .registerAgent sampleProto := by
    rw [← sampleRegistration_signed]
    exact (Option.some.inj hr).symm
  exact hrequest ▸ sampleCall_exchange

theorem sdk_runs_served_sample :
    (sampleCalls.foldl (fun node c => (makeCall sampleSetting node c).1) {}).registry =
        sampleCalls.foldl (fun registry c => (serviceStep sampleServer registry c).1) {} ∧
      List.Forall₂ (fun answer reply => ∃ r, reply = .ok r ∧ Shows answer r) (answers sampleServer {} sampleCalls)
        (replies sampleSetting {} sampleCalls) :=
  sdk_runs_served sampleSetting {} sampleCalls (fun r hr => absurd hr List.not_mem_nil) sampleCalls_callable (by decide)
    sampleCalls_carried

end BeaconNode.ClientRuns
