import BeaconNode.ServedCalls

namespace BeaconNode.ListingCalls

open Words TextStream OrderedMap Records Crypto KeyedList Registry LineProtocol ProtobufControl SyncClient SyncRounds
  SignedRegistry Transports Utf8 PythonIdentity PythonClient PythonText PythonListing ListedAgents SdkSync ClientCalls
  ServedCalls

/-- However the engine lists the record, what the SDK makes of it stands in
the relation. -/
structure ReadAs (interpreter : Interpreter) (R : AgentRecord → ListedAgent → Prop) (record : AgentRecord) : Prop where
  line : ∃ registration agent, Listable registration record ∧
    parseAgent interpreter (listedLine registration) = .ok agent ∧ R record agent
  message : ∃ agent, fromProtoAgent (toProto record) = some agent ∧ R record (ofRegistration agent)

def listing (server : Server) (registry : AgentRegistry) : Call → List AgentRecord
  | .listAgents => registry.list
  | .syncPull afterRevision limit =>
      registry.entriesAfterRevision server.platform.revisionSort (UInt64.ofNat afterRevision) (UInt64.ofNat limit)
  | .register _ | .merge _ | .heartbeat _ _ | .stats => []

variable {setting : Setting} {node : Node} {c : ClientCall} {interpreter : Interpreter} {registration : Registration}
  {record : AgentRecord} {records : List AgentRecord} {R : AgentRecord → ListedAgent → Prop}

theorem ReadAs.imp {S : AgentRecord → ListedAgent → Prop} (h : ReadAs interpreter R record)
    (hi : ∀ agent, R record agent → S record agent) : ReadAs interpreter S record := by
  obtain ⟨⟨registration, agent, hlistable, hagent, hr⟩, other, hother, ho⟩ := h
  exact ⟨⟨registration, agent, hlistable, hagent, hi _ hr⟩, other, hother, hi _ ho⟩

theorem messages_read (h : ∀ r ∈ records, ReadAs interpreter R r) :
    ∃ agents, fromProtoAgents (records.map toProto) = some agents ∧ List.Forall₂ R records agents := by
  induction records with
  | nil => exact ⟨[], rfl, .nil⟩
  | cons r rs ih =>
      obtain ⟨agent, hagent, hr⟩ := (h r (by simp)).message
      obtain ⟨agents, hagents, hrest⟩ := ih fun s hs => h s (by simp [hs])
      obtain ⟨registrations, hregistrations, rfl⟩ := Option.map_eq_some_iff.mp hagents
      refine ⟨ofRegistration agent :: registrations.map ofRegistration, ?_, .cons hr hrest⟩
      rw [fromProtoAgents, List.map_cons, List.mapM_cons, hagent, hregistrations]
      rfl

theorem readMessage_listing (message : Bytes) (client : BeaconClient) {call : Call} (hl : call.lists = true)
    (h : ∀ r ∈ records, ReadAs interpreter R r) :
    ∃ agents, readMessage interpreter client call
      { ok := true, message := message, snapshot := records.map toProto } = .ok (.agents agents) ∧
        List.Forall₂ R records agents := by
  obtain ⟨agents, hagents, hread⟩ := messages_read h
  refine ⟨agents, ?_, hread⟩
  simp only [readMessage, hl, if_true, hagents]

theorem listedLine_one_line (h : Listable registration record) :
    ∀ c ∈ listedLine registration, isLineBoundary c = false := by
  refine words_one_line (by decide) fun w hw => ?_
  obtain ⟨p, hp, rfl⟩ := List.mem_map.mp hw
  exact (h.unbroken_token hp).2

theorem lines_read (h : ∀ r ∈ records, ReadAs interpreter R r) :
    ∃ (text : Str) (lines : List Str) (agents : List ListedAgent), encode text = agentLines records ∧
      (∀ rest, splitlines (text ++ rest) = lines ++ splitlines rest) ∧
        (∀ line ∈ lines, (str "AGENT ").isPrefixOf line = true) ∧
          lines.mapM (parseAgent interpreter) = .ok agents ∧ List.Forall₂ R records agents := by
  induction records with
  | nil => exact ⟨[], [], [], rfl, fun _ => rfl, fun line hl => absurd hl List.not_mem_nil, rfl, .nil⟩
  | cons r rs ih =>
      obtain ⟨registration, agent, hlistable, hagent, hr⟩ := (h r (by simp)).line
      obtain ⟨text, lines, agents, hencode, hlines, hprefix, hagents, hrest⟩ := ih fun s hs => h s (by simp [hs])
      refine ⟨listedLine registration ++ ['\n'] ++ text, listedLine registration :: lines, agent :: agents, ?_, ?_, ?_,
        ?_, .cons hr hrest⟩
      · rw [encode_append, hlistable.encode_line, hencode]
        rfl
      · intro rest
        have hfirst := linesFrom_line [] (listedLine registration) (listedLine_one_line hlistable) (text ++ rest)
        rw [List.append_assoc, List.append_assoc, List.singleton_append, splitlines, hfirst, List.nil_append,
          List.cons_append]
        exact congrArg _ (hlines rest)
      · intro line hl
        rcases List.mem_cons.mp hl with rfl | hl
        · exact isPrefixOf_append (str "AGENT ") _
        · exact hprefix line hl
      · rw [List.mapM_cons, hagent, hagents]
        rfl

theorem readText_listing {word : String} (hw : word = "list" ∨ word = "sync_pull") (client : BeaconClient)
    {call : Call} (hl : call.lists = true) (h : ∀ r ∈ records, ReadAs interpreter R r) :
    ∃ response agents, okResponse (ascii word) ++ agentLines records ++ ascii "END\n" = encode response ∧
      readText interpreter client call response = .ok (.agents agents) ∧ List.Forall₂ R records agents := by
  obtain ⟨text, lines, agents, hencode, hlines, hprefix, hagents, hread⟩ := lines_read h
  let first := str "OK message=" ++ str word
  have hfirst : encode (first ++ ['\n']) = okResponse (ascii word) ∧ first.all (fun c => !isLineBoundary c) = true ∧
      (str "AGENT ").isPrefixOf first = false := by
    rcases hw with rfl | rfl
    · decide
    · decide
  have hend : encode (str "END\n") = ascii "END\n" := by decide
  refine ⟨first ++ ['\n'] ++ text ++ str "END\n", agents, ?_, ?_, hread⟩
  · rw [encode_append, encode_append, hfirst.1, hencode, hend]
  · have hone (c : Char) (hc : c ∈ first) : isLineBoundary c = false := by
      simpa using List.all_eq_true.mp hfirst.2.1 c hc
    have hsplit : splitlines (first ++ ['\n'] ++ text ++ str "END\n") = first :: (lines ++ [str "END"]) := by
      have hhead := PythonText.linesFrom_line [] first hone (text ++ str "END\n")
      rw [List.append_assoc, List.append_assoc, List.singleton_append, splitlines, hhead, List.nil_append]
      exact congrArg _ (hlines (str "END\n"))
    have hfilter : (first :: (lines ++ [str "END"])).filter (fun line => (str "AGENT ").isPrefixOf line) = lines := by
      have hlast : [str "END"].filter (fun line => (str "AGENT ").isPrefixOf line) = [] := by decide
      rw [List.filter_cons_of_neg (by simp [hfirst.2.2]), List.filter_append, hlast, List.append_nil,
        List.filter_eq_self.mpr hprefix]
    simp only [readText, hl, if_true, parseAgentList, hsplit, hfilter, hagents]
    rfl

def ReadsListing (setting : Setting) (node : Node) (c : ClientCall) (R : AgentRecord → ListedAgent → Prop) : Prop :=
  ∃ agents, makeCall setting node c = (node, .ok (.agents agents)) ∧
    List.Forall₂ R (listing setting.server node.registry c.call) agents

theorem makeCall_list (hcall : c.call = .listAgents)
    (h : ∀ r ∈ node.registry.records, ReadAs setting.interpreter R r) (hcarried : Carried setting node c) :
    ReadsListing setting node c R := by
  have hl : c.call.lists = true := by rw [hcall]; rfl
  rw [ReadsListing, hcall, listing]
  cases hp : c.client.protocol with
  | line =>
      have hencode : encode (lineOf c.client c.call) = ascii "LIST" := by
        rw [hcall]
        exact (by decide : encode (str "LIST") = ascii "LIST")
      obtain ⟨response, agents, hresponse, hread, hagents⟩ := readText_listing (Or.inl rfl) c.client hl h
      have hline : handleLine setting.server.platform setting.server.protocol c.now node
          (encode (lineOf c.client c.call)) = (node, encode response) := by
        rw [hencode, ← hresponse]
        rfl
      refine ⟨agents, ?_, hagents⟩
      rw [makeCall_line hp (by rw [hencode]; decide) (by rw [hencode]; decide) (congrArg Prod.snd hline), hline, hread]
  | protobuf =>
      have hr : requestOf c.client c.call = some .listAgents := by rw [hcall]; rfl
      obtain ⟨agents, hread, hagents⟩ := readMessage_listing (ascii "list") c.client hl h
      refine ⟨agents, ?_, hagents⟩
      rw [makeCall_proto hp hr (hcarried hp _ hr)]
      exact Prod.ext rfl hread

theorem makeCall_pull {afterRevision limit : Nat} (hcall : c.call = .syncPull afterRevision limit)
    (hbounds : afterRevision < 2 ^ 64 ∧ limit < 2 ^ 32)
    (h : ∀ r ∈ node.registry.records, ReadAs setting.interpreter R r) (hcarried : Carried setting node c) :
    ReadsListing setting node c R := by
  have hl : c.call.lists = true := by rw [hcall]; rfl
  obtain ⟨entries, hentries⟩ : ∃ entries, node.registry.entriesAfterRevision setting.server.platform.revisionSort
    (UInt64.ofNat afterRevision) (UInt64.ofNat limit) = entries := ⟨_, rfl⟩
  have hreadable : ∀ r ∈ entries, ReadAs setting.interpreter R r :=
    fun r hr => h r (mem_entriesAfterRevision (hentries ▸ hr)).1
  rw [ReadsListing, hcall, listing, hentries]
  cases hp : c.client.protocol with
  | line =>
      have hencode : encode (lineOf c.client c.call) =
          encodeSyncPullCommand (UInt64.ofNat afterRevision) (UInt64.ofNat limit) := by
        have hname : encode (str "SYNC_PULL after_revision=") = ascii "SYNC_PULL after_revision=" := by decide
        have hlimit : encode (str " limit=") = ascii " limit=" := by decide
        have hnumbers : (UInt64.ofNat afterRevision).toNat = afterRevision ∧ (UInt64.ofNat limit).toNat = limit := by
          rw [UInt64.toNat_ofNat', UInt64.toNat_ofNat']
          omega
        rw [hcall, lineOf, encodeSyncPullCommand, encode_append, encode_append, encode_append, encode_digits,
          encode_digits, hname, hlimit, hnumbers.1, hnumbers.2]
      have hn : newline ∉ encode (lineOf c.client c.call) := by
        rw [hencode, encodeSyncPullCommand]
        simp only [List.mem_append, not_or]
        exact ⟨⟨⟨by decide, (decimal_spaceFree _).newline_not_mem⟩, by decide⟩, (decimal_spaceFree _).newline_not_mem⟩
      have hb : (encode (lineOf c.client c.call)).head? ≠ some 66 := by
        rw [hencode]
        exact fun he => absurd (Option.some.inj he) (by decide)
      obtain ⟨response, agents, hresponse, hread, hagents⟩ := readText_listing (Or.inr rfl) c.client hl hreadable
      have hline : handleLine setting.server.platform setting.server.protocol c.now node
          (encode (lineOf c.client c.call)) = (node, encode response) := by
        rw [hencode, ← hresponse, handleLine, parseCommand_syncPull]
        simp [hentries]
      refine ⟨agents, ?_, hagents⟩
      rw [makeCall_line hp hn hb (congrArg Prod.snd hline), hline, hread]
  | protobuf =>
      have hr : requestOf c.client c.call =
          some (.syncPull (UInt64.ofNat afterRevision) (UInt32.ofNat limit)) := by
        rw [hcall]
        exact if_pos hbounds
      have hlimit : (UInt32.ofNat limit).toUInt64 = UInt64.ofNat limit := by
        apply UInt64.toNat_inj.mp
        rw [UInt32.toNat_toUInt64, UInt32.toNat_ofNat', UInt64.toNat_ofNat']
        omega
      obtain ⟨agents, hread, hagents⟩ := readMessage_listing (ascii "sync_pull") c.client hl hreadable
      refine ⟨agents, ?_, hagents⟩
      have hrequest : handleRequest setting.server.platform setting.server.protocol c.now node
          (some (.syncPull (UInt64.ofNat afterRevision) (UInt32.ofNat limit))) =
            (node, { ok := true, message := ascii "sync_pull", snapshot := entries.map toProto }) := by
        simp only [handleRequest, hlimit, hentries]
      rw [makeCall_proto hp hr (hcarried hp _ hr), hrequest, hread]

theorem makeCall_lists (hl : c.call.lists = true) (hcall : Callable setting.interpreter c.call)
    (h : ∀ r ∈ node.registry.records, ReadAs setting.interpreter R r) (hcarried : Carried setting node c) :
    ReadsListing setting node c R := by
  cases hc : c.call with
  | listAgents => exact makeCall_list hc h hcarried
  | syncPull afterRevision limit =>
      rw [hc] at hcall
      exact makeCall_pull hc hcall h hcarried
  | register | merge | heartbeat | stats =>
      rw [hc] at hl
      cases hl

theorem mem_map_encodePair (items : List (Str × Str)) (q : Str × Str) :
    encodePair q ∈ items.map encodePair ↔ q ∈ items := by
  rw [List.mem_map]
  constructor
  · rintro ⟨p, hp, he⟩
    obtain ⟨hkey, hvalue⟩ := Prod.mk.inj he
    exact Prod.ext (encode_injective hkey) (encode_injective hvalue) ▸ hp
  · exact fun hq => ⟨q, hq, rfl⟩

theorem parseAgent_shows (h : Listable registration record) (hu : Unambiguous interpreter registration) :
    ∃ agent, parseAgent interpreter (listedLine registration) = .ok agent ∧ ShowsRecord record agent := by
  have hrevision : registration.revision < 2 ^ 64 := h.encodes.revision ▸ record.revision.toNat_lt
  have hagent := readsAsText_iff interpreter (by decide : str "agent_id" ≠ str "public_key") (by decide)
    registration.agentId
  have hnode := readsAsText_iff interpreter (by decide : str "node_id" ≠ str "public_key") (by decide)
    registration.nodeId
  have hendpoint := readsAsText_iff interpreter (by decide : str "endpoint" ≠ str "public_key") (by decide)
    registration.endpoint
  refine ⟨⟨registration.agentId, registration.nodeId, registration.endpoint, listedMetadata interpreter registration,
    registration.revision, registration.publicKey, registration.signature⟩,
    (parseAgent_line h _).mpr ⟨fun p hp => hu.not_raises hrevision hp, (hagent.mpr hu.agentId).2,
      (hnode.mpr hu.nodeId).2, (hendpoint.mpr hu.endpoint).2, rfl, rfl, rfl, rfl⟩, ?_⟩
  refine ⟨h.encodes.agentId.symm, h.encodes.nodeId.symm, h.encodes.endpoint.symm,
    congrArg Nat.cast h.encodes.revision.symm, fun p => ?_, h.publicKey, h.signature⟩
  rw [listedMetadata_texts_iff.mpr hu.metadata p, List.mem_map]
  simp only [h.encodes.metadata, mem_map_encodePair, eq_comm]

theorem mapM_readPair (items : List (Str × Str)) : (items.map encodePair).mapM readPair = some items := by
  induction items with
  | nil => rfl
  | cons p ps ih =>
      have hp : readPair (encodePair p) = some p := by
        simp only [readPair, encodePair, decode_encode, Option.bind_eq_bind, Option.bind_some]
        rfl
      rw [List.map_cons, List.mapM_cons, hp, ih]
      rfl

theorem fromProtoAgent_shows (h : Listable registration record) :
    ∃ agent, fromProtoAgent (toProto record) = some agent ∧ ShowsRecord record (ofRegistration agent) := by
  have hmetadata : (toProto record).metadata = record.metadata := SortedMap.foldl_insert_empty record.metadata
  have hitems : (toProto record).metadata.entries.mapM readPair = some (sorted registration.metadata.items) := by
    rw [hmetadata, entries_eq_sorted h.encodes, mapM_readPair]
  have hagentId : decode (toProto record).agentId = some registration.agentId :=
    (congrArg decode h.encodes.agentId).trans (decode_encode _)
  have hnodeId : decode (toProto record).nodeId = some registration.nodeId :=
    (congrArg decode h.encodes.nodeId).trans (decode_encode _)
  have hendpoint : decode (toProto record).endpoint = some registration.endpoint :=
    (congrArg decode h.encodes.endpoint).trans (decode_encode _)
  have hkeys : ((sorted registration.metadata.items).map Prod.fst).Nodup :=
    (((List.perm_insertionSort tupleLe registration.metadata.items).map Prod.fst).nodup_iff).mpr
      registration.metadata.nodup
  obtain ⟨agent, hagent⟩ : ∃ agent, fromProtoAgent (toProto record) = some agent := by
    simp only [fromProtoAgent, hagentId, hnodeId, hendpoint, hitems, Option.bind_eq_bind, Option.bind_some, hkeys,
      dif_pos]
    exact ⟨_, rfl⟩
  refine ⟨agent, hagent, ?_⟩
  have hfields := holdsFields_fromProtoAgent hagent
  refine ⟨hfields.agentId.symm, hfields.nodeId.symm, hfields.endpoint.symm, congrArg Nat.cast hfields.revision.symm,
    fun p => ?_, hfields.publicKey.symm, hfields.signature.symm⟩
  simp only [← hmetadata, hfields.metadata, mem_map_encodePair]
  simp only [ofRegistration, List.mem_map, eq_comm]

theorem readAs_of_readable (h : Readable interpreter record) : ReadAs interpreter ShowsRecord record := by
  obtain ⟨registration, hlistable, hu⟩ := h
  obtain ⟨agent, hagent, hshows⟩ := parseAgent_shows hlistable hu
  exact ⟨⟨registration, agent, hlistable, hagent, hshows⟩, fromProtoAgent_shows hlistable⟩

end BeaconNode.ListingCalls
