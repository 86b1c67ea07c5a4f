import BeaconNode.RecordCodec

namespace BeaconNode.AcceptedLines

open Words TextStream OrderedMap Records LineProtocol RecordCodec

structure FieldSafe (r : AgentRecord) : Prop where
  agentId : SpaceFree r.agentId
  nodeId : SpaceFree r.nodeId
  endpoint : SpaceFree r.endpoint
  publicKeyHex : SpaceFree r.publicKeyHex
  signatureHex : SpaceFree r.signatureHex
  metadata : ∀ p ∈ r.metadata.entries, SpaceFree p.1 ∧ equals ∉ p.1 ∧ SpaceFree p.2

structure Reading (command : ControlCommand) : Prop where
  fields : FieldSafe command.registration
  agentId : command.registration.agentId = command.agentId

variable {command : ControlCommand} {token : Bytes}

theorem splitEquals_name {token : Bytes} (h : SpaceFree token) :
    SpaceFree (splitEquals token).1 ∧ equals ∉ (splitEquals token).1 := by
  refine ⟨h.sublist (List.takeWhile_sublist _), fun he => ?_⟩
  have hne := List.mem_takeWhile_imp he
  simp at hne

theorem splitEquals_value {token value : Bytes} (h : SpaceFree token) (hv : (splitEquals token).2 = some value) :
    SpaceFree value := by
  have hd : SpaceFree (token.dropWhile (· ≠ equals)) := h.sublist (List.dropWhile_sublist _)
  simp only [splitEquals] at hv
  cases hw : token.dropWhile (· ≠ equals) with
  | nil =>
      rw [hw] at hv
      cases hv
  | cons c cs =>
      rw [hw] at hv hd
      obtain rfl := Option.some.inj hv
      exact hd.sublist (List.sublist_cons_self c _)

theorem getValue_spaceFree (h : SpaceFree token) : SpaceFree (getValue token) := by
  rw [getValue]
  cases hv : (splitEquals token).2 with
  | none => exact fun c hc => absurd hc List.not_mem_nil
  | some value => exact splitEquals_value h hv

theorem setMetadata_fieldSafe {r : AgentRecord} (h : FieldSafe r) (ht : SpaceFree token) :
    FieldSafe (setMetadata r token) := by
  obtain ⟨hname, heq⟩ := splitEquals_name ht
  cases hs : splitEquals token with
  | mk name value =>
      cases value with
      | none =>
          rw [setMetadata, hs]
          exact h
      | some value =>
          have hvalue : SpaceFree value := splitEquals_value ht (by rw [hs])
          rw [hs] at hname heq
          rw [setMetadata, hs]
          refine { h with metadata := fun p hp => ?_ }
          rcases SortedMap.insert_keys hp with rfl | hp
          · exact ⟨hname.sublist (List.drop_sublist _ _), fun he => heq (List.mem_of_mem_drop he), hvalue⟩
          · exact h.metadata p hp

theorem parseNumber_cases {P : ControlCommand → Prop} {value error : Bytes} {set : UInt64 → ControlCommand}
    (hset : ∀ n, P (set n)) (herror : ∀ e, P { command with error := e }) :
    P (parseNumber command value set error) := by
  rw [parseNumber]
  split
  · exact hset _
  · exact herror _

theorem parseField_cases {P : ControlCommand → Prop} (command : ControlCommand) (token : Bytes)
    (agentId : P { command with
      agentId := getValue token, registration := { command.registration with agentId := getValue token } })
    (nodeId : P { command with registration := { command.registration with nodeId := getValue token } })
    (endpoint : P { command with registration := { command.registration with endpoint := getValue token } })
    (revision : ∀ n, P { command with registration := { command.registration with revision := n } })
    (afterRevision : ∀ n, P { command with afterRevision := n })
    (limit : ∀ n, P { command with limit := n })
    (publicKey : P { command with registration := { command.registration with publicKeyHex := getValue token } })
    (signature : P { command with registration := { command.registration with signatureHex := getValue token } })
    (metadata : P { command with registration := setMetadata command.registration token })
    (error : ∀ e, P { command with error := e }) (other : P command) : P (parseField command token) := by
  rw [parseField]
  refine iteInduction (fun _ => agentId) fun _ => ?_
  refine iteInduction (fun _ => nodeId) fun _ => ?_
  refine iteInduction (fun _ => endpoint) fun _ => ?_
  refine iteInduction (fun _ => parseNumber_cases revision error) fun _ => ?_
  refine iteInduction (fun _ => parseNumber_cases afterRevision error) fun _ => ?_
  refine iteInduction (fun _ => parseNumber_cases limit error) fun _ => ?_
  refine iteInduction (fun _ => publicKey) fun _ => ?_
  refine iteInduction (fun _ => signature) fun _ => ?_
  exact iteInduction (fun _ => metadata) fun _ => other

theorem setMetadata_eq (r : AgentRecord) (token : Bytes) :
    ∃ metadata, setMetadata r token = { r with metadata := metadata } := by
  rw [setMetadata]
  split
  · exact ⟨_, rfl⟩
  · exact ⟨r.metadata, rfl⟩

theorem parseField_reading (h : Reading command) (ht : SpaceFree token) : Reading (parseField command token) := by
  have hv := getValue_spaceFree ht
  apply parseField_cases
  · exact ⟨{ h.fields with agentId := hv }, rfl⟩
  · exact ⟨{ h.fields with nodeId := hv }, h.agentId⟩
  · exact ⟨{ h.fields with endpoint := hv }, h.agentId⟩
  · exact fun n => ⟨{ h.fields with }, h.agentId⟩
  · exact fun n => ⟨h.fields, h.agentId⟩
  · exact fun n => ⟨h.fields, h.agentId⟩
  · exact ⟨{ h.fields with publicKeyHex := hv }, h.agentId⟩
  · exact ⟨{ h.fields with signatureHex := hv }, h.agentId⟩
  · have hsafe := setMetadata_fieldSafe h.fields ht
    obtain ⟨metadata, hm⟩ := setMetadata_eq command.registration token
    rw [hm] at hsafe ⊢
    exact ⟨hsafe, h.agentId⟩
  · exact fun e => ⟨h.fields, h.agentId⟩
  · exact h

theorem parseFields_reading {tokens : List Bytes} (h : Reading command) (ht : ∀ t ∈ tokens, SpaceFree t) :
    Reading (parseFields command tokens) := by
  induction tokens generalizing command with
  | nil => exact h
  | cons token tokens ih =>
      have hnext := parseField_reading h (ht token (by simp))
      simp only [parseFields]
      split
      · exact hnext
      · exact ih hnext fun t hm => ht t (by simp [hm])

theorem fieldSafe_empty (t : TimePoint) : FieldSafe { expiresAt := t } := by
  have hs : SpaceFree [] := fun c hc => absurd hc List.not_mem_nil
  exact ⟨hs, hs, hs, hs, hs, fun p hp => absurd hp List.not_mem_nil⟩

theorem startCommand_reading (lifecycle : LifecycleConfig) (now : TimePoint) (verb : Bytes) :
    Reading (startCommand lifecycle now verb) := by
  rw [startCommand]
  split
  · exact ⟨fieldSafe_empty _, rfl⟩
  split
  · exact ⟨fieldSafe_empty _, rfl⟩
  split
  · exact ⟨fieldSafe_empty _, rfl⟩
  split
  · exact ⟨fieldSafe_empty _, rfl⟩
  split
  · exact ⟨fieldSafe_empty _, rfl⟩
  split
  · exact ⟨fieldSafe_empty _, rfl⟩
  · exact ⟨fieldSafe_empty _, rfl⟩

theorem requiredFields_reading (h : Reading command) : Reading (requiredFields command) := by
  rw [requiredFields]
  split
  · exact ⟨h.fields, h.agentId⟩
  split
  · exact ⟨h.fields, h.agentId⟩
  · exact h

theorem parseCommand_reading (lifecycle : LifecycleConfig) (now : TimePoint) (line : Bytes) :
    Reading (parseCommand lifecycle now line) := by
  rw [parseCommand]
  cases ht : splitTokens line with
  | nil => exact ⟨fieldSafe_empty _, rfl⟩
  | cons verb fields =>
      have hstart := startCommand_reading lifecycle now verb
      have hfields := parseFields_reading hstart (splitTokens_fields ht)
      dsimp only
      split
      · exact hstart
      split
      · exact hfields
      · exact requiredFields_reading hfields

theorem operation_submit {record : AgentRecord} (h : operation command = .submit record) :
    command.error = [] ∧ (command.action = .register ∨ command.action = .merge) ∧
      record = command.registration := by
  simp only [operation] at h
  split at h
  · cases h
  next he =>
    rw [not_not] at he
    split at h
    next ha => exact ⟨he, Or.inl ha, (Operation.submit.inj h).symm⟩
    next ha => exact ⟨he, Or.inr ha, (Operation.submit.inj h).symm⟩
    all_goals cases h

theorem requiredFields_submit {record : AgentRecord} (h : Reading command)
    (ho : operation (requiredFields command) = .submit record) : WireSafe record ∧ Addressed record := by
  obtain ⟨he, ha, rfl⟩ := operation_submit ho
  simp only [requiredFields] at he ha ⊢
  split at he
  · cases he
  next hid =>
    rw [if_neg hid] at ha ⊢
    split at he
    · cases he
    next hat =>
      rw [if_neg hat] at ha ⊢
      have hne : command.agentId ≠ [] := fun hn => hid ⟨ha.imp_right Or.inl, hn⟩
      have hnode : command.registration.nodeId ≠ [] := fun hn => hat ⟨ha, Or.inl hn⟩
      have hend : command.registration.endpoint ≠ [] := fun hn => hat ⟨ha, Or.inr hn⟩
      exact ⟨{ h.fields with agentId_ne := h.agentId ▸ hne }, hnode, hend⟩

/-- A record that the line parser accepts is one that the line format carries
unchanged. -/
theorem parseCommand_submit {lifecycle : LifecycleConfig} {now : TimePoint} {line : Bytes} {record : AgentRecord}
    (h : operation (parseCommand lifecycle now line) = .submit record) : WireSafe record ∧ Addressed record := by
  simp only [parseCommand] at h
  cases ht : splitTokens line with
  | nil =>
      rw [ht] at h
      cases h
  | cons verb fields =>
      have hread := parseFields_reading (startCommand_reading lifecycle now verb) (splitTokens_fields ht)
      rw [ht] at h
      dsimp only at h
      split at h
      next hs => exact absurd (operation_submit h).1 hs
      next =>
        split at h
        next hf => exact absurd (operation_submit h).1 hf
        next => exact requiredFields_submit hread h

/-- Nothing that a field says changes the verb or the expiry. -/
structure SameStamp (command other : ControlCommand) : Prop where
  action : other.action = command.action
  expiresAt : other.registration.expiresAt = command.registration.expiresAt

theorem parseField_sameStamp (command : ControlCommand) (token : Bytes) :
    SameStamp command (parseField command token) := by
  apply parseField_cases
  · exact ⟨rfl, rfl⟩
  · exact ⟨rfl, rfl⟩
  · exact ⟨rfl, rfl⟩
  · exact fun n => ⟨rfl, rfl⟩
  · exact fun n => ⟨rfl, rfl⟩
  · exact fun n => ⟨rfl, rfl⟩
  · exact ⟨rfl, rfl⟩
  · exact ⟨rfl, rfl⟩
  · obtain ⟨metadata, hm⟩ := setMetadata_eq command.registration token
    rw [hm]
    exact ⟨rfl, rfl⟩
  · exact fun e => ⟨rfl, rfl⟩
  · exact ⟨rfl, rfl⟩

theorem parseFields_sameStamp (command : ControlCommand) (tokens : List Bytes) :
    SameStamp command (parseFields command tokens) := by
  induction tokens generalizing command with
  | nil => exact ⟨rfl, rfl⟩
  | cons token tokens ih =>
      have hnext := parseField_sameStamp command token
      simp only [parseFields]
      split
      · exact hnext
      · have hrest := ih (parseField command token)
        exact ⟨hrest.action.trans hnext.action, hrest.expiresAt.trans hnext.expiresAt⟩

theorem requiredFields_sameStamp (command : ControlCommand) : SameStamp command (requiredFields command) := by
  rw [requiredFields]
  split
  · exact ⟨rfl, rfl⟩
  split
  · exact ⟨rfl, rfl⟩
  · exact ⟨rfl, rfl⟩

theorem startCommand_stamp {lifecycle : LifecycleConfig} {now : TimePoint} {verb : Bytes}
    (h : (startCommand lifecycle now verb).action = .register ∨ (startCommand lifecycle now verb).action = .merge) :
    (startCommand lifecycle now verb).registration.expiresAt = now + milliseconds lifecycle.heartbeatTtl := by
  simp only [startCommand] at h ⊢
  split at h
  next hv => rw [if_pos hv]
  next hv =>
    rw [if_neg hv]
    split at h
    next hm => rw [if_pos hm]
    next =>
      -- the remaining verbs carry no record
      repeat' split at h
      all_goals rcases h with h | h <;> cases h

theorem parseCommand_stamp {lifecycle : LifecycleConfig} {now : TimePoint} {line : Bytes} {record : AgentRecord}
    (h : operation (parseCommand lifecycle now line) = .submit record) :
    record.expiresAt = now + milliseconds lifecycle.heartbeatTtl := by
  obtain ⟨-, ha, rfl⟩ := operation_submit h
  have hstamp : ∃ verb, SameStamp (startCommand lifecycle now verb) (parseCommand lifecycle now line) := by
    rw [parseCommand]
    cases splitTokens line with
    | nil => exact ⟨[], ⟨rfl, rfl⟩⟩
    | cons verb fields =>
        refine ⟨verb, ?_⟩
        have hfields := parseFields_sameStamp (startCommand lifecycle now verb) fields
        have hrequired := requiredFields_sameStamp (parseFields (startCommand lifecycle now verb) fields)
        dsimp only
        split
        · exact ⟨rfl, rfl⟩
        split
        · exact hfields
        · exact ⟨hrequired.action.trans hfields.action, hrequired.expiresAt.trans hfields.expiresAt⟩
  obtain ⟨verb, hs⟩ := hstamp
  rw [hs.action] at ha
  rw [hs.expiresAt, startCommand_stamp ha]

end BeaconNode.AcceptedLines
