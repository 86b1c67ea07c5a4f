import BeaconNode.AcceptedLines

namespace BeaconNode.PushPullParsers

open Words TextStream OrderedMap Records Registry LineProtocol SyncClient RecordCodec AcceptedLines

variable {command : ControlCommand} {token : Bytes} {record : AgentRecord}

theorem startsWith_other {c d : UInt8} {pre name : Bytes} (h : startsWith token (c :: pre) = true) (hne : c ≠ d) :
    startsWith token (d :: name) = false := by
  obtain ⟨rest, rfl⟩ := List.isPrefixOf_iff_prefix.mp h
  simp [startsWith, List.isPrefixOf, Ne.symm hne]

theorem parseRevision_full {value : Bytes} {n : UInt64} (h : parseRevision value 0 = (n, true)) (old : UInt64) :
    (parseRevision value old).1 = n := by
  simp only [parseRevision] at h ⊢
  cases hv : (fromChars value).value with
  | none => simp [hv] at h
  | some parsed =>
      rw [hv] at h
      exact (Prod.mk.inj h).1

theorem parseNumber_full {value error : Bytes} {set : UInt64 → ControlCommand} (hne : error ≠ [])
    (h : (parseNumber command value set error).error = []) :
    ∃ n, parseRevision value 0 = (n, true) ∧ parseNumber command value set error = set n := by
  simp only [parseNumber] at h ⊢
  split at h
  next n hn => exact ⟨n, hn, rfl⟩
  next => exact absurd h hne

theorem requestName_other {c : UInt8} {pre : Bytes} (h : startsWith token (c :: pre) = true) (hc : c = 97 ∨ c = 108) :
    startsWith token (ascii "public_key=") = false ∧ startsWith token (ascii "signature=") = false ∧
      startsWith token (ascii "metadata.") = false := by
  rcases hc with rfl | rfl
  · exact ⟨startsWith_other h (by decide), startsWith_other h (by decide), startsWith_other h (by decide)⟩
  · exact ⟨startsWith_other h (by decide), startsWith_other h (by decide), startsWith_other h (by decide)⟩

theorem parseField_registration (h : (parseField command token).error = []) :
    (parseField command token).registration = parseAgentField command.registration token := by
  rw [parseField] at h ⊢
  rw [parseAgentField]
  by_cases hagent : startsWith token (ascii "agent_id=") = true
  · rw [if_pos hagent, if_pos hagent]
    rfl
  rw [if_neg hagent] at h ⊢
  rw [if_neg hagent]
  by_cases hnode : startsWith token (ascii "node_id=") = true
  · rw [if_pos hnode, if_pos hnode]
    rfl
  rw [if_neg hnode] at h ⊢
  rw [if_neg hnode]
  by_cases hendpoint : startsWith token (ascii "endpoint=") = true
  · rw [if_pos hendpoint, if_pos hendpoint]
    rfl
  rw [if_neg hendpoint] at h ⊢
  rw [if_neg hendpoint]
  by_cases hrevision : startsWith token (ascii "revision=") = true
  · rw [if_pos hrevision] at h ⊢
    rw [if_pos hrevision]
    obtain ⟨n, hn, hset⟩ := parseNumber_full (by decide) h
    rw [hset, fieldValue, parseRevision_full hn]
  rw [if_neg hrevision] at h ⊢
  rw [if_neg hrevision]
  by_cases hafter : startsWith token (ascii "after_revision=") = true
  · rw [if_pos hafter] at h ⊢
    obtain ⟨n, -, hset⟩ := parseNumber_full (by decide) h
    obtain ⟨hkey, hsignature, hmetadata⟩ := requestName_other hafter (Or.inl rfl)
    rw [hset]
    simp [hkey, hsignature, hmetadata]
  rw [if_neg hafter] at h ⊢
  by_cases hlimit : startsWith token (ascii "limit=") = true
  · rw [if_pos hlimit] at h ⊢
    obtain ⟨n, -, hset⟩ := parseNumber_full (by decide) h
    obtain ⟨hkey, hsignature, hmetadata⟩ := requestName_other hlimit (Or.inr rfl)
    rw [hset]
    simp [hkey, hsignature, hmetadata]
  rw [if_neg hlimit]
  by_cases hkey : startsWith token (ascii "public_key=") = true
  · rw [if_pos hkey, if_pos hkey]
    rfl
  rw [if_neg hkey, if_neg hkey]
  by_cases hsignature : startsWith token (ascii "signature=") = true
  · rw [if_pos hsignature, if_pos hsignature]
    rfl
  rw [if_neg hsignature, if_neg hsignature]
  split
  · rfl
  · rfl

theorem parseFields_registration {tokens : List Bytes} (h : (parseFields command tokens).error = []) :
    (parseFields command tokens).registration = tokens.foldl parseAgentField command.registration := by
  induction tokens generalizing command with
  | nil => rfl
  | cons token tokens ih =>
      simp only [parseFields] at h ⊢
      split at h
      next herror => exact absurd h herror
      next herror =>
        rw [not_not] at herror
        rw [if_neg (by simp [herror]), ih h, parseField_registration herror, List.foldl_cons]

theorem parseAgentField_restamp (record : AgentRecord) (t : TimePoint) (token : Bytes) :
    parseAgentField (record.restamp t) token = (parseAgentField record token).restamp t := by
  have hmetadata : setMetadata (record.restamp t) token = (setMetadata record token).restamp t := by
    rw [setMetadata, setMetadata]
    split
    · rfl
    · rfl
  -- The branches are the same on both sides: move the stamp into them.
  simp only [parseAgentField, hmetadata, apply_ite (AgentRecord.restamp · t)]
  rfl

theorem foldl_parseAgentField_restamp (record : AgentRecord) (t : TimePoint) (tokens : List Bytes) :
    tokens.foldl parseAgentField (record.restamp t) = (tokens.foldl parseAgentField record).restamp t := by
  induction tokens generalizing record with
  | nil => rfl
  | cons token tokens ih => rw [List.foldl_cons, List.foldl_cons, parseAgentField_restamp, ih]

theorem requiredFields_merge (ha : command.action = .merge) (h : (requiredFields command).error = []) :
    requiredFields command = command ∧ command.agentId ≠ [] := by
  rw [requiredFields] at h ⊢
  split at h
  · cases h
  next hid =>
    rw [if_neg hid]
    split at h
    · cases h
    next hat =>
      rw [if_neg hat]
      exact ⟨rfl, fun hn => hid ⟨Or.inr (Or.inl ha), hn⟩⟩

theorem parseCommand_pushed {lifecycle : LifecycleConfig} {now : TimePoint} {text : Bytes}
    (h : (parseCommand lifecycle now (ascii "MERGE " ++ text)).error = []) :
    (parseCommand lifecycle now (ascii "MERGE " ++ text)).registration =
        (splitTokens text).foldl parseAgentField { expiresAt := now + milliseconds lifecycle.heartbeatTtl } ∧
      (parseCommand lifecycle now (ascii "MERGE " ++ text)).registration.agentId ≠ [] := by
  have htokens : splitTokens (ascii "MERGE " ++ text) = ascii "MERGE" :: splitTokens text := rfl
  have hstart : startCommand lifecycle now (ascii "MERGE") =
      { action := .merge, registration := { expiresAt := now + milliseconds lifecycle.heartbeatTtl } } := rfl
  have hstamp := parseFields_sameStamp (startCommand lifecycle now (ascii "MERGE")) (splitTokens text)
  have hreading := parseCommand_reading lifecycle now (ascii "MERGE " ++ text)
  rw [hstart] at hstamp
  rw [parseCommand, htokens] at h hreading ⊢
  simp only [hstart, ne_eq, not_true_eq_false, if_false] at h hreading ⊢
  split at h
  next herror => exact absurd h herror
  next herror =>
    rw [not_not] at herror
    obtain ⟨hsame, hagent⟩ := requiredFields_merge hstamp.action h
    rw [if_neg (by simp [herror]), hsame] at hreading ⊢
    exact ⟨parseFields_registration herror, hreading.agentId ▸ hagent⟩

/-- A record that is pushed means what it means when it is pulled. -/
theorem push_pull_agree (lifecycle : LifecycleConfig) (pushed pulled : TimePoint) (text : Bytes)
    (hline : newline ∉ text) (h : (parseCommand lifecycle pushed (ascii "MERGE " ++ text)).error = []) :
    ∃ r, parseAgentLines pulled (ascii "AGENT " ++ text ++ ascii "\n") = [r] ∧
      SameButExpiry r (parseCommand lifecycle pushed (ascii "MERGE " ++ text)).registration := by
  obtain ⟨hregistration, hagent⟩ := parseCommand_pushed h
  have htokens : splitTokens (ascii "AGENT " ++ text) = ascii "AGENT" :: splitTokens text := rfl
  have hlines : getLines (ascii "AGENT " ++ text ++ ascii "\n") = [ascii "AGENT " ++ text] := by
    have hfree : newline ∉ ascii "AGENT " ++ text := by
      rw [List.mem_append, not_or]
      exact ⟨by decide, hline⟩
    exact linesFrom_line [] (ascii "AGENT " ++ text) [] hfree
  have hstamped : (splitTokens text).foldl parseAgentField { expiresAt := pulled + minutes 1 } =
      (parseCommand lifecycle pushed (ascii "MERGE " ++ text)).registration.restamp (pulled + minutes 1) := by
    rw [hregistration, ← foldl_parseAgentField_restamp]
    rfl
  refine ⟨_, ?_, sameButExpiry_restamp _ (pulled + minutes 1)⟩
  rw [parseAgentLines, hlines, List.filterMap_cons, parseAgentLine, htokens]
  simp only [if_true, hstamped, restamp_agentId, hagent, if_false, List.filterMap_nil]

theorem push_pull_agree_metadata : ∃ r,
    parseAgentLines 5 (ascii "AGENT " ++ ascii "agent_id=a node_id=n limit=3 endpoint=e:1 metadata.k=v=w" ++
      ascii "\n") = [r] ∧
    SameButExpiry r (parseCommand {} 0
      (ascii "MERGE " ++ ascii "agent_id=a node_id=n limit=3 endpoint=e:1 metadata.k=v=w")).registration := by
  apply push_pull_agree
  · decide
  · decide

end BeaconNode.PushPullParsers
