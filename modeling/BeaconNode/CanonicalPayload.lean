import BeaconNode.AcceptedLines

namespace BeaconNode.CanonicalPayload

open Words TextStream OrderedMap Records Crypto LineProtocol RecordCodec AcceptedLines

def payloadLines (r : AgentRecord) : List Bytes :=
  [ascii "agent_id=" ++ r.agentId, ascii "node_id=" ++ r.nodeId, ascii "endpoint=" ++ r.endpoint,
    ascii "revision=" ++ decimal r.revision.toNat] ++ r.metadata.entries.map metadataToken

/-- The fields that a signature covers. -/
structure SameSignedFields (r s : AgentRecord) : Prop where
  agentId : r.agentId = s.agentId
  nodeId : r.nodeId = s.nodeId
  endpoint : r.endpoint = s.endpoint
  revision : r.revision = s.revision
  metadata : r.metadata = s.metadata

variable {r s : AgentRecord}

theorem canonicalAgentPayload_eq (r : AgentRecord) :
    canonicalAgentPayload r = (payloadLines r).flatMap (fun l => l ++ [newline]) := by
  have hn : ascii "\n" = [newline] := rfl
  have he : ascii "=" = [equals] := rfl
  simp [canonicalAgentPayload, payloadLines, metadataToken, hn, he, List.flatMap_map]

theorem payloadLines_newline_not_mem (h : WireSafe r) {l : Bytes} (hl : l ∈ payloadLines r) : newline ∉ l := by
  have hlit : ∀ {s : String} {v : Bytes}, SpaceFree (ascii s) → SpaceFree v → newline ∉ ascii s ++ v :=
    fun hs hv => (hs.append hv).newline_not_mem
  simp only [payloadLines, List.mem_append, List.mem_cons, List.not_mem_nil, or_false] at hl
  rcases hl with (rfl | rfl | rfl | rfl) | hl
  · exact hlit (by decide) h.agentId
  · exact hlit (by decide) h.nodeId
  · exact hlit (by decide) h.endpoint
  · exact hlit (by decide) (decimal_spaceFree _)
  · obtain ⟨p, hp, rfl⟩ := List.mem_map.mp hl
    obtain ⟨hk, -, hv⟩ := h.metadata p hp
    exact (metadataToken_spaceFree hk hv).newline_not_mem

theorem payloadLines_eq_of_payload (hr : WireSafe r) (hs : WireSafe s)
    (h : canonicalAgentPayload r = canonicalAgentPayload s) : payloadLines r = payloadLines s := by
  rw [canonicalAgentPayload_eq, canonicalAgentPayload_eq] at h
  rw [← getLines_lines (payloadLines r) fun l hl => payloadLines_newline_not_mem hr hl, h,
    getLines_lines (payloadLines s) fun l hl => payloadLines_newline_not_mem hs hl]

theorem decimal_injective {m n : UInt64} (h : decimal m.toNat = decimal n.toNat) : m = n := by
  apply UInt64.toNat_inj.mp
  rw [← decimalValue_decimal m.toNat, h, decimalValue_decimal]

def readToken (token : Bytes) : Bytes × Bytes := ((splitEquals token).1.drop 9, getValue token)

theorem readToken_metadataToken (p : Bytes × Bytes) (h : equals ∉ p.1) : readToken (metadataToken p) = p := by
  have hn : equals ∉ ascii "metadata." ++ p.1 := by
    rw [List.mem_append, not_or]
    exact ⟨by decide, h⟩
  rw [readToken, getValue, metadataToken, splitEquals_append _ _ hn]
  rfl

theorem metadata_readTokens (h : WireSafe r) :
    (r.metadata.entries.map metadataToken).map readToken = r.metadata.entries := by
  rw [List.map_map]
  conv_rhs => rw [← List.map_id r.metadata.entries]
  apply List.map_congr_left
  intro p hp
  exact readToken_metadataToken p (h.metadata p hp).2.1

theorem sameSignedFields_of_payload (hr : WireSafe r) (hs : WireSafe s)
    (h : canonicalAgentPayload r = canonicalAgentPayload s) : SameSignedFields r s := by
  have hl := payloadLines_eq_of_payload hr hs h
  simp only [payloadLines, List.cons_append, List.nil_append, List.cons.injEq, List.append_cancel_left_eq] at hl
  obtain ⟨hagent, hnode, hendpoint, hrevision, hmetadata⟩ := hl
  refine ⟨hagent, hnode, hendpoint, decimal_injective hrevision, SortedMap.ext ?_⟩
  rw [← metadata_readTokens hr, hmetadata, metadata_readTokens hs]

def SubmitsRecord (command : ControlCommand) : Prop :=
  command.error = [] ∧ (command.action = .register ∨ command.action = .merge)

theorem SubmitsRecord.operation {command : ControlCommand} (h : SubmitsRecord command) :
    LineProtocol.operation command = .submit command.registration := by
  obtain ⟨he, ha | ha⟩ := h
  · simp [LineProtocol.operation, he, ha]
  · simp [LineProtocol.operation, he, ha]

/-- Two accepted lines with one payload are about the same record, whatever
the settings and the clocks of the nodes that read them. -/
theorem payload_unambiguous (lifecycle other : LifecycleConfig) (now later : TimePoint) (line text : Bytes)
    (hl : SubmitsRecord (parseCommand lifecycle now line)) (ht : SubmitsRecord (parseCommand other later text))
    (h : canonicalAgentPayload (parseCommand lifecycle now line).registration =
      canonicalAgentPayload (parseCommand other later text).registration) :
    SameSignedFields (parseCommand lifecycle now line).registration (parseCommand other later text).registration :=
  sameSignedFields_of_payload (parseCommand_submit hl.operation).1 (parseCommand_submit ht.operation).1 h

def keyedRecord (expiresAt : TimePoint) : AgentRecord where
  agentId := ascii "a"
  nodeId := ascii "n"
  endpoint := ascii "e:1"
  metadata := .insert .empty (ascii "k") (ascii "v")
  revision := 1
  expiresAt := expiresAt

theorem payload_unambiguous_reordered :
    SameSignedFields
      (parseCommand {} 0 (ascii "REGISTER agent_id=a node_id=n endpoint=e:1 revision=1 metadata.k=v")).registration
      (parseCommand {} 5 (ascii "MERGE metadata.k=v revision=01 endpoint=e:1 node_id=n agent_id=a")).registration := by
  have hregister : parseCommand {} 0
      (ascii "REGISTER agent_id=a node_id=n endpoint=e:1 revision=1 metadata.k=v") =
        { action := .register, agentId := ascii "a", registration := keyedRecord (milliseconds 30000) } := by
    decide +kernel
  have hmerge : parseCommand {} 5
      (ascii "MERGE metadata.k=v revision=01 endpoint=e:1 node_id=n agent_id=a") =
        { action := .merge, agentId := ascii "a", registration := keyedRecord (5 + milliseconds 30000) } := by
    decide +kernel
  apply payload_unambiguous {} {} 0 5
  · rw [hregister]
    exact ⟨rfl, Or.inl rfl⟩
  · rw [hmerge]
    exact ⟨rfl, Or.inr rfl⟩
  · rw [hregister, hmerge]
    rfl

end BeaconNode.CanonicalPayload
