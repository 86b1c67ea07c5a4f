import BeaconNode.SyncClient

namespace BeaconNode.RecordCodec

open Words TextStream OrderedMap Records Crypto Identity Registry LineProtocol SyncClient

/-- The records the line format carries unchanged. -/
structure WireSafe (r : AgentRecord) : Prop where
  agentId_ne : r.agentId ≠ []
  agentId : SpaceFree r.agentId
  nodeId : SpaceFree r.nodeId
  endpoint : SpaceFree r.endpoint
  publicKeyHex : SpaceFree r.publicKeyHex
  signatureHex : SpaceFree r.signatureHex
  metadata : ∀ p ∈ r.metadata.entries, SpaceFree p.1 ∧ equals ∉ p.1 ∧ SpaceFree p.2

/-- The two fields that REGISTER and MERGE require besides the agent. -/
def Addressed (r : AgentRecord) : Prop := r.nodeId ≠ [] ∧ r.endpoint ≠ []

theorem WireSafe.refresh {r : AgentRecord} (h : WireSafe r) (expiresAt : TimePoint) (revision : UInt64) :
    WireSafe { r with expiresAt := expiresAt, revision := revision } :=
  { h with }

theorem WireSafe.restamp {r : AgentRecord} (h : WireSafe r) (expiresAt : TimePoint) : WireSafe (r.restamp expiresAt) :=
  h.refresh expiresAt r.revision

def metadataToken (p : Bytes × Bytes) : Bytes := ascii "metadata." ++ p.1 ++ equals :: p.2

def keyTokens (r : AgentRecord) : List Bytes :=
  if r.publicKeyHex = [] then [] else [ascii "public_key=" ++ r.publicKeyHex]

def signatureTokens (r : AgentRecord) : List Bytes :=
  if r.signatureHex = [] then [] else [ascii "signature=" ++ r.signatureHex]

def recordTokens (r : AgentRecord) : List Bytes :=
  [ascii "agent_id=" ++ r.agentId, ascii "node_id=" ++ r.nodeId, ascii "endpoint=" ++ r.endpoint,
    ascii "revision=" ++ decimal r.revision.toNat] ++
  (keyTokens r ++ (signatureTokens r ++ r.metadata.entries.map metadataToken))

theorem foldl_metadata (entries : List (Bytes × Bytes)) (line : Bytes) :
    entries.foldl (fun line p => line ++ ascii " metadata." ++ p.1 ++ ascii "=" ++ p.2) line =
      line ++ (entries.map metadataToken).flatMap (fun w => space :: w) := by
  induction entries generalizing line with
  | nil => simp
  | cons p ps ih =>
      rw [List.foldl_cons, ih, List.map_cons, List.flatMap_cons, ← List.append_assoc]
      congr 1
      simp only [List.append_assoc]
      rfl

theorem encodeAgentLine_eq (r : AgentRecord) :
    encodeAgentLine r =
      ascii "AGENT" ++ (recordTokens r).flatMap (fun w => space :: w) ++ [newline] := by
  have ha : ascii "AGENT agent_id=" = ascii "AGENT" ++ space :: ascii "agent_id=" := rfl
  have hn : ascii " node_id=" = space :: ascii "node_id=" := rfl
  have he : ascii " endpoint=" = space :: ascii "endpoint=" := rfl
  have hr : ascii " revision=" = space :: ascii "revision=" := rfl
  have hp : ascii " public_key=" = space :: ascii "public_key=" := rfl
  have hg : ascii " signature=" = space :: ascii "signature=" := rfl
  have hl : ascii "\n" = [newline] := rfl
  simp only [encodeAgentLine, foldl_metadata, recordTokens, keyTokens, signatureTokens, ha, hn, he, hr, hp, hg, hl]
  by_cases hk : r.publicKeyHex = []
  · by_cases hs : r.signatureHex = []
    · simp [hk, hs]
    · simp [hk, hs]
  · by_cases hs : r.signatureHex = []
    · simp [hk, hs]
    · simp [hk, hs]

theorem metadataToken_spaceFree {p : Bytes × Bytes} (hk : SpaceFree p.1) (hv : SpaceFree p.2) :
    SpaceFree (metadataToken p) := by
  have he : SpaceFree [equals] := by simp [SpaceFree, equals, isSpace]
  exact (SpaceFree.append (by decide) hk).append (he.append hv)

theorem recordTokens_word {r : AgentRecord} (h : WireSafe r) {w : Bytes} (hw : w ∈ recordTokens r) :
    w ≠ [] ∧ SpaceFree w := by
  have hlit : ∀ {s : String} {v : Bytes}, ascii s ≠ [] → SpaceFree (ascii s) → SpaceFree v →
      ascii s ++ v ≠ [] ∧ SpaceFree (ascii s ++ v) :=
    fun hne hs hv => ⟨by simp [hne], hs.append hv⟩
  simp only [recordTokens, keyTokens, signatureTokens, List.mem_append, List.mem_cons, List.not_mem_nil,
    or_false] at hw
  rcases hw with (rfl | rfl | rfl | rfl) | hw | hw | hw
  · exact hlit (by decide) (by decide) h.agentId
  · exact hlit (by decide) (by decide) h.nodeId
  · exact hlit (by decide) (by decide) h.endpoint
  · exact hlit (by decide) (by decide) (decimal_spaceFree _)
  · split at hw
    · simp at hw
    · rw [List.mem_singleton.mp hw]
      exact hlit (by decide) (by decide) h.publicKeyHex
  · split at hw
    · simp at hw
    · rw [List.mem_singleton.mp hw]
      exact hlit (by decide) (by decide) h.signatureHex
  · obtain ⟨p, hp, rfl⟩ := List.mem_map.mp hw
    obtain ⟨hk, -, hv⟩ := h.metadata p hp
    exact ⟨by simp [metadataToken], metadataToken_spaceFree hk hv⟩

theorem splitTokens_record {r : AgentRecord} (h : WireSafe r) (verb : Bytes) (hne : verb ≠ [])
    (hs : SpaceFree verb) :
    splitTokens (verb ++ (recordTokens r).flatMap (fun w => space :: w)) = verb :: recordTokens r := by
  apply splitTokens_words
  intro w hw
  rcases List.mem_cons.mp hw with rfl | hw
  · exact ⟨hne, hs⟩
  · exact recordTokens_word h hw

theorem setMetadata_token (record : AgentRecord) (p : Bytes × Bytes) (h : equals ∉ p.1) :
    setMetadata record (metadataToken p) = { record with metadata := record.metadata.insert p.1 p.2 } := by
  have hn : equals ∉ ascii "metadata." ++ p.1 := by
    rw [List.mem_append, not_or]
    exact ⟨by decide, h⟩
  rw [setMetadata, metadataToken, splitEquals_append _ _ hn]
  rfl

theorem parseRevision_decimal (n old : UInt64) : parseRevision (decimal n.toNat) old = (n, true) := by
  simp [parseRevision, fromChars_decimal]

theorem parseNumber_decimal (command : ControlCommand) (n : UInt64) (set : UInt64 → ControlCommand)
    (error : Bytes) : parseNumber command (decimal n.toNat) set error = set n := by
  rw [parseNumber, parseRevision_decimal]

theorem parseAgentField_agentId (record : AgentRecord) (v : Bytes) :
    parseAgentField record (ascii "agent_id=" ++ v) = { record with agentId := v } := rfl

theorem parseAgentField_nodeId (record : AgentRecord) (v : Bytes) :
    parseAgentField record (ascii "node_id=" ++ v) = { record with nodeId := v } := rfl

theorem parseAgentField_endpoint (record : AgentRecord) (v : Bytes) :
    parseAgentField record (ascii "endpoint=" ++ v) = { record with endpoint := v } := rfl

theorem parseAgentField_revision (record : AgentRecord) (n : UInt64) :
    parseAgentField record (ascii "revision=" ++ decimal n.toNat) = { record with revision := n } := by
  change { record with revision := (parseRevision (decimal n.toNat) record.revision).1 } = _
  rw [parseRevision_decimal]

theorem parseAgentField_metadata (record : AgentRecord) (p : Bytes × Bytes) (h : equals ∉ p.1) :
    parseAgentField record (metadataToken p) = { record with metadata := record.metadata.insert p.1 p.2 } := by
  change setMetadata record (metadataToken p) = _
  exact setMetadata_token record p h

theorem foldl_keyTokens (r record : AgentRecord) (h : record.publicKeyHex = []) :
    (keyTokens r).foldl parseAgentField record = { record with publicKeyHex := r.publicKeyHex } := by
  rw [keyTokens]
  split
  next hk => rw [hk, ← h]; rfl
  next hk => rfl

theorem foldl_signatureTokens (r record : AgentRecord) (h : record.signatureHex = []) :
    (signatureTokens r).foldl parseAgentField record = { record with signatureHex := r.signatureHex } := by
  rw [signatureTokens]
  split
  next hs => rw [hs, ← h]; rfl
  next hs => rfl

theorem foldl_metadataTokens (entries : List (Bytes × Bytes)) (h : ∀ p ∈ entries, equals ∉ p.1)
    (record : AgentRecord) :
    (entries.map metadataToken).foldl parseAgentField record =
      { record with metadata := entries.foldl (fun m p => m.insert p.1 p.2) record.metadata } := by
  induction entries generalizing record with
  | nil => rfl
  | cons p ps ih =>
      rw [List.map_cons, List.foldl_cons, parseAgentField_metadata record p (h p (by simp)),
        ih (fun q hq => h q (by simp [hq]))]
      rfl

theorem foldl_recordTokens {r : AgentRecord} (h : WireSafe r) (t : TimePoint) :
    (recordTokens r).foldl parseAgentField { expiresAt := t } = r.restamp t := by
  simp only [recordTokens, List.foldl_append, List.foldl_cons, List.foldl_nil, parseAgentField_agentId,
    parseAgentField_nodeId, parseAgentField_endpoint, parseAgentField_revision]
  rw [foldl_keyTokens _ _ rfl, foldl_signatureTokens _ _ rfl,
    foldl_metadataTokens _ (fun p hp => (h.metadata p hp).2.1)]
  simp only [SortedMap.foldl_insert_empty]
  rfl

theorem parseAgentLine_record {r : AgentRecord} (h : WireSafe r) (now : TimePoint) :
    parseAgentLine now (ascii "AGENT" ++ (recordTokens r).flatMap (fun w => space :: w)) =
      some (r.restamp (now + minutes 1)) := by
  rw [parseAgentLine, splitTokens_record h (ascii "AGENT") (by decide) (by decide)]
  simp only [if_true, foldl_recordTokens h, restamp_agentId, h.agentId_ne, if_false]

theorem recordLine_newline_not_mem {r : AgentRecord} (h : WireSafe r) (verb : Bytes) (hv : SpaceFree verb) :
    newline ∉ verb ++ (recordTokens r).flatMap (fun w => space :: w) := by
  rw [List.mem_append, not_or]
  refine ⟨hv.newline_not_mem, fun hc => ?_⟩
  obtain ⟨w, hw, hc⟩ := List.mem_flatMap.mp hc
  rcases List.mem_cons.mp hc with hc | hc
  · exact absurd hc (by decide)
  · exact (recordTokens_word h hw).2.newline_not_mem hc

/-- Both replies that carry records are read back as those records, stamped
with the reader's own expiry. The first and the last line are no agents. -/
theorem parseAgentLines_reply (word : String) (hw : SpaceFree (ascii word)) (records : List AgentRecord)
    (h : ∀ r ∈ records, WireSafe r) (now : TimePoint) :
    parseAgentLines now (okResponse (ascii word) ++ agentLines records ++ ascii "END\n") =
      records.map (fun r => r.restamp (now + minutes 1)) := by
  have hlines : okResponse (ascii word) ++ agentLines records ++ ascii "END\n" =
      ((ascii "OK message=" ++ ascii word) ::
        (records.map (fun r => ascii "AGENT" ++ (recordTokens r).flatMap (fun w => space :: w)) ++
          [ascii "END"])).flatMap (fun l => l ++ [newline]) := by
    have hn : ascii "\n" = [newline] := rfl
    have he : ascii "END\n" = ascii "END" ++ [newline] := rfl
    have hr : agentLines records = records.flatMap
        (fun r => ascii "AGENT" ++ (recordTokens r).flatMap (fun w => space :: w) ++ [newline]) :=
      List.flatMap_congr fun r _ => encodeAgentLine_eq r
    simp [okResponse, hr, hn, he, List.flatMap_map]
  have hhead : parseAgentLine now (ascii "OK message=" ++ ascii word) = none := by
    have hs : ascii "OK message=" ++ ascii word =
        ascii "OK" ++ [ascii "message=" ++ ascii word].flatMap (fun w => space :: w) := by
      rw [List.flatMap_singleton]
      rfl
    have ht : splitTokens (ascii "OK message=" ++ ascii word) = [ascii "OK", ascii "message=" ++ ascii word] := by
      rw [hs]
      apply splitTokens_words
      simp only [List.forall_mem_cons, List.not_mem_nil, false_imp_iff, implies_true, and_true]
      exact ⟨⟨by decide, by decide⟩, by simp [ascii], SpaceFree.append (by decide) hw⟩
    rw [parseAgentLine, ht]
    rfl
  rw [hlines, parseAgentLines, getLines_lines]
  · rw [List.filterMap_cons_none hhead, List.filterMap_append, List.filterMap_map,
      show [ascii "END"].filterMap (parseAgentLine now) = [] from rfl, List.append_nil, ← List.filterMap_eq_map]
    apply List.filterMap_congr
    intro r hr
    exact parseAgentLine_record (h r hr) now
  · intro l hl
    simp only [List.mem_cons, List.mem_append, List.mem_map, List.not_mem_nil, or_false] at hl
    rcases hl with rfl | ⟨r, hr, rfl⟩ | rfl
    · rw [List.mem_append, not_or]
      exact ⟨by decide, hw.newline_not_mem⟩
    · exact recordLine_newline_not_mem (h r hr) _ (by decide)
    · decide

theorem parseFields_cons {command : ControlCommand} {token : Bytes} (tokens : List Bytes)
    (h : (parseField command token).error = []) :
    parseFields command (token :: tokens) = parseFields (parseField command token) tokens := by
  simp [parseFields, h]

theorem parseField_revision (command : ControlCommand) (n : UInt64) :
    parseField command (ascii "revision=" ++ decimal n.toNat) =
      { command with registration := { command.registration with revision := n } } := by
  change parseNumber command (decimal n.toNat) _ _ = _
  rw [parseNumber_decimal]

theorem parseField_metadata (command : ControlCommand) (p : Bytes × Bytes) (h : equals ∉ p.1) :
    parseField command (metadataToken p) = { command with registration :=
      { command.registration with metadata := command.registration.metadata.insert p.1 p.2 } } := by
  change { command with registration := setMetadata command.registration (metadataToken p) } = _
  rw [setMetadata_token _ p h]

theorem parseFields_metadata (entries : List (Bytes × Bytes)) (h : ∀ p ∈ entries, equals ∉ p.1)
    (tokens : List Bytes) (command : ControlCommand) (he : command.error = []) :
    parseFields command (entries.map metadataToken ++ tokens) = parseFields { command with registration :=
      { command.registration with
        metadata := entries.foldl (fun m p => m.insert p.1 p.2) command.registration.metadata } } tokens := by
  induction entries generalizing command with
  | nil => rfl
  | cons p ps ih =>
      have hp := parseField_metadata command p (h p (by simp))
      rw [List.map_cons, List.cons_append, parseFields_cons _ (by rw [hp]; exact he), hp,
        ih (fun q hq => h q (by simp [hq]))]
      · rfl
      · exact he

theorem parseFields_keyTokens (r : AgentRecord) (tokens : List Bytes) (command : ControlCommand)
    (he : command.error = []) (hk : command.registration.publicKeyHex = []) :
    parseFields command (keyTokens r ++ tokens) = parseFields { command with registration :=
      { command.registration with publicKeyHex := r.publicKeyHex } } tokens := by
  rw [keyTokens]
  split
  next h => rw [h, ← hk]; rfl
  next h => exact parseFields_cons _ he

theorem parseFields_signatureTokens (r : AgentRecord) (tokens : List Bytes) (command : ControlCommand)
    (he : command.error = []) (hs : command.registration.signatureHex = []) :
    parseFields command (signatureTokens r ++ tokens) = parseFields { command with registration :=
      { command.registration with signatureHex := r.signatureHex } } tokens := by
  rw [signatureTokens]
  split
  next h => rw [h, ← hs]; rfl
  next h => exact parseFields_cons _ he

theorem parseFields_recordTokens {r : AgentRecord} (h : WireSafe r) (action : ControlAction) (t : TimePoint) :
    parseFields { action := action, registration := { expiresAt := t } } (recordTokens r) =
      { action := action, registration := r.restamp t, agentId := r.agentId } := by
  rw [recordTokens, List.cons_append, parseFields_cons _ rfl, List.cons_append, parseFields_cons _ rfl,
    List.cons_append, parseFields_cons _ rfl, List.cons_append,
    parseFields_cons _ (by rw [parseField_revision]; rfl), parseField_revision, List.nil_append,
    parseFields_keyTokens r _ _ rfl rfl, parseFields_signatureTokens r _ _ rfl rfl,
    ← List.append_nil (r.metadata.entries.map metadataToken),
    parseFields_metadata _ (fun p hp => (h.metadata p hp).2.1) [] _ rfl]
  let m : Metadata := r.metadata.entries.foldl (fun m p => m.insert p.1 p.2) .empty
  change ControlCommand.mk action { r with metadata := m, expiresAt := t } r.agentId [] 0 256 = _
  rw [show m = r.metadata from SortedMap.foldl_insert_empty r.metadata]
  rfl

theorem encodeMergeCommand_eq (r : AgentRecord) :
    encodeMergeCommand r = ascii "MERGE" ++ (recordTokens r).flatMap (fun w => space :: w) := by
  have hd : (encodeAgentLine r).drop 5 = (recordTokens r).flatMap (fun w => space :: w) ++ [newline] := by
    rw [encodeAgentLine_eq, List.append_assoc]
    rfl
  simp only [encodeMergeCommand, hd, ← List.append_assoc]
  simp

/-- A line of either verb that carries a record is read as that record,
stamped with the heartbeat lifetime. -/
theorem parseCommand_record {r : AgentRecord} (h : WireSafe r) (ha : Addressed r) (lifecycle : LifecycleConfig)
    (now : TimePoint) {verb : Bytes} {action : ControlAction} (hne : verb ≠ []) (hv : SpaceFree verb)
    (hs : startCommand lifecycle now verb =
      { action := action, registration := { expiresAt := now + milliseconds lifecycle.heartbeatTtl } }) :
    parseCommand lifecycle now (verb ++ (recordTokens r).flatMap (fun w => space :: w)) =
      { action := action, agentId := r.agentId
        registration := r.restamp (now + milliseconds lifecycle.heartbeatTtl) } := by
  rw [parseCommand, splitTokens_record h verb hne hv]
  simp only [hs, parseFields_recordTokens h, ne_eq, not_true_eq_false, if_false]
  simp [requiredFields, h.agentId_ne, ha.1, ha.2]

theorem parseCommand_merge {r : AgentRecord} (h : WireSafe r) (ha : Addressed r) (lifecycle : LifecycleConfig)
    (now : TimePoint) :
    parseCommand lifecycle now (encodeMergeCommand r) =
      { action := .merge, agentId := r.agentId
        registration := r.restamp (now + milliseconds lifecycle.heartbeatTtl) } := by
  rw [encodeMergeCommand_eq]
  exact parseCommand_record h ha lifecycle now (by decide) (by decide) rfl

/-- Both decoders of the line format read back what its encoder wrote, up to
the expiry, which they set from their own clock. -/
theorem line_round_trip (lifecycle : LifecycleConfig) (now : TimePoint) :
    (∀ records : List AgentRecord, (∀ r ∈ records, WireSafe r) →
      parseAgentLines now (ascii "OK message=sync_pull\n" ++ records.flatMap encodeAgentLine ++ ascii "END\n") =
        records.map (fun r => r.restamp (now + minutes 1))) ∧
    ∀ r, WireSafe r → Addressed r →
      (parseCommand lifecycle now (encodeMergeCommand r)).error = [] ∧
      (parseCommand lifecycle now (encodeMergeCommand r)).action = .merge ∧
      (parseCommand lifecycle now (encodeMergeCommand r)).registration =
        r.restamp (now + milliseconds lifecycle.heartbeatTtl) := by
  constructor
  · intro records h
    exact parseAgentLines_reply "sync_pull" (by decide) records h now
  · intro r h ha
    rw [parseCommand_merge h ha]
    exact ⟨rfl, rfl, rfl⟩

def taggedRecord : AgentRecord :=
  { agentId := ascii "agent-1", nodeId := ascii "node-1", endpoint := ascii "127.0.0.1:9000", revision := 7
    expiresAt := 0, metadata := (SortedMap.empty.insert (ascii "query") (ascii "a=b")).insert (ascii "note") [] }

theorem taggedRecord_wireSafe : WireSafe taggedRecord where
  agentId_ne := by decide
  agentId := by decide
  nodeId := by decide
  endpoint := by decide
  publicKeyHex := by decide
  signatureHex := by decide
  metadata := by
    simp only [show taggedRecord.metadata.entries = [(ascii "note", []), (ascii "query", ascii "a=b")] from rfl,
      List.forall_mem_cons, List.not_mem_nil, false_imp_iff, implies_true, and_true]
    decide

theorem line_round_trip_tagged :
    parseAgentLines 0 (ascii "OK message=sync_pull\n" ++ [taggedRecord].flatMap encodeAgentLine ++ ascii "END\n") =
        [taggedRecord.restamp (minutes 1)] ∧
      (parseCommand {} 0 (encodeMergeCommand taggedRecord)).registration = taggedRecord.restamp (milliseconds 30000) := by
  obtain ⟨hlines, hmerge⟩ := line_round_trip {} 0
  refine ⟨hlines [taggedRecord] ?_, (hmerge taggedRecord taggedRecord_wireSafe ?_).2.2⟩
  · rintro r hr
    rw [List.mem_singleton.mp hr]
    exact taggedRecord_wireSafe
  · exact ⟨by decide, by decide⟩

end BeaconNode.RecordCodec
