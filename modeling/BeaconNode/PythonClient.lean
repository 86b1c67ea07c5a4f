import BeaconNode.PythonIdentity

namespace BeaconNode.PythonClient

open Words TextStream OrderedMap Records Crypto LineProtocol RecordCodec Utf8 PythonIdentity

/-- The SDK's record, with the two fields that its signature does not cover. -/
structure Registration extends AgentRegistration where
  publicKey : Bytes := []
  signature : Bytes := []

def hex (bytes : Bytes) : Str :=
  bytes.flatMap (fun b => [Nat.digitChar (b.toNat / 16), Nat.digitChar (b.toNat % 16)])

def encodeRecordCommand (command : Str) (registration : Registration) : Str :=
  let parts := [command, str "agent_id=" ++ registration.agentId, str "node_id=" ++ registration.nodeId,
    str "endpoint=" ++ registration.endpoint, str "revision=" ++ Nat.toDigits 10 registration.revision]
  let parts := parts ++ registration.metadata.items.map metadataLine
  let parts := if registration.publicKey ≠ [] then parts ++ [str "public_key=" ++ hex registration.publicKey]
    else parts
  let parts := if registration.signature ≠ [] then parts ++ [str "signature=" ++ hex registration.signature]
    else parts
  (str " ").intercalate parts

def encodeRegister (registration : Registration) : Str := encodeRecordCommand (str "REGISTER") registration

def encodeMerge (registration : Registration) : Str := encodeRecordCommand (str "MERGE") registration

def AsciiSpaceFree (s : Str) : Prop := ∀ c ∈ s, c.toNat ≠ 32 ∧ ¬ (9 ≤ c.toNat ∧ c.toNat ≤ 13)

instance (s : Str) : Decidable (AsciiSpaceFree s) :=
  List.decidableBAll (fun c : Char => c.toNat ≠ 32 ∧ ¬ (9 ≤ c.toNat ∧ c.toNat ≤ 13)) s

structure Sendable (registration : Registration) : Prop where
  agentId_ne : registration.agentId ≠ []
  nodeId_ne : registration.nodeId ≠ []
  endpoint_ne : registration.endpoint ≠ []
  agentId : AsciiSpaceFree registration.agentId
  nodeId : AsciiSpaceFree registration.nodeId
  endpoint : AsciiSpaceFree registration.endpoint
  metadata : ∀ p ∈ registration.metadata.items, AsciiSpaceFree p.1 ∧ '=' ∉ p.1 ∧ AsciiSpaceFree p.2
  revision : registration.revision < 2 ^ 64

def keyedRecord (registration : Registration) : AgentRecord :=
  { engineRecord registration.toAgentRegistration with
    publicKeyHex := encodeHex registration.publicKey
    signatureHex := encodeHex registration.signature }

def commandTokens (registration : Registration) : List Bytes :=
  [ascii "agent_id=" ++ encode registration.agentId, ascii "node_id=" ++ encode registration.nodeId,
    ascii "endpoint=" ++ encode registration.endpoint, ascii "revision=" ++ decimal registration.revision] ++
  ((registration.metadata.items.map encodePair).map metadataToken ++
    (keyTokens (keyedRecord registration) ++ signatureTokens (keyedRecord registration)))

variable {registration : Registration}

theorem encode_hex (bytes : Bytes) : encode (hex bytes) = encodeHex bytes := by
  have hdigit : ∀ n < 16, String.utf8EncodeChar (Nat.digitChar n) = [hexDigit n] := by decide
  induction bytes with
  | nil => rfl
  | cons b bs ih =>
      have hb := b.toNat_lt
      have hcons : hex (b :: bs) = [Nat.digitChar (b.toNat / 16), Nat.digitChar (b.toNat % 16)] ++ hex bs := rfl
      rw [hcons, encode_append, ih, encode_cons, encode_cons, hdigit _ (by omega), hdigit _ (by omega)]
      rfl

theorem encode_spaceFree {s : Str} (h : AsciiSpaceFree s) : SpaceFree (encode s) := by
  intro b hb
  by_contra hs
  have hrange : b.toNat = 32 ∨ 9 ≤ b.toNat ∧ b.toNat ≤ 13 := by
    rw [Bool.not_eq_false, isSpace, Bool.or_eq_true, Bool.and_eq_true, beq_iff_eq, decide_eq_true_eq,
      decide_eq_true_eq, UInt8.le_iff_toNat_le, UInt8.le_iff_toNat_le] at hs
    rcases hs with hs | hs
    · exact Or.inl (congrArg UInt8.toNat hs)
    · exact Or.inr hs
  obtain ⟨c, hc, he⟩ := exists_char_of_mem_encode hb (by omega)
  obtain ⟨h32, hcontrol⟩ := h c hc
  rcases hrange with h' | h'
  · exact h32 (he.trans h')
  · exact hcontrol (he ▸ h')

theorem equals_not_mem_encode {s : Str} (h : '=' ∉ s) : equals ∉ encode s := by
  intro hb
  obtain ⟨c, hc, he⟩ := exists_char_of_mem_encode hb (by decide)
  have hchar : c = '=' := Char.toNat_inj.mp he
  exact h (hchar ▸ hc)

theorem Sendable.encodesTo (h : Sendable registration) :
    EncodesTo registration.toAgentRegistration (keyedRecord registration) :=
  { engineRecord_encodesTo h.revision with }

theorem Sendable.wireSafe (h : Sendable registration) : WireSafe (keyedRecord registration) where
  agentId_ne := fun he => h.agentId_ne (encode_injective (t := []) he)
  agentId := encode_spaceFree h.agentId
  nodeId := encode_spaceFree h.nodeId
  endpoint := encode_spaceFree h.endpoint
  publicKeyHex := encodeHex_spaceFree _
  signatureHex := encodeHex_spaceFree _
  metadata := by
    intro p hp
    obtain ⟨q, hq, rfl⟩ := List.mem_map.mp ((h.encodesTo.metadata p).mp hp)
    obtain ⟨hk, he, hv⟩ := h.metadata q hq
    exact ⟨encode_spaceFree hk, equals_not_mem_encode he, encode_spaceFree hv⟩

theorem Sendable.addressed (h : Sendable registration) : Addressed (keyedRecord registration) :=
  ⟨fun he => h.nodeId_ne (encode_injective (t := []) he), fun he => h.endpoint_ne (encode_injective (t := []) he)⟩

theorem Sendable.mem_recordTokens (h : Sendable registration) {w : Bytes} (hw : w ∈ commandTokens registration) :
    w ∈ recordTokens (keyedRecord registration) := by
  have hrevision : (keyedRecord registration).revision.toNat = registration.revision := h.encodesTo.revision
  have hmetadata (p : Bytes × Bytes) := h.encodesTo.metadata p
  simp only [commandTokens, List.mem_append, List.mem_map (f := metadataToken), ← hmetadata, ← hrevision] at hw
  simp only [recordTokens, List.mem_append, List.mem_map (f := metadataToken)]
  rcases hw with hw | hw | hw | hw
  · exact Or.inl hw
  · exact Or.inr (Or.inr (Or.inr hw))
  · exact Or.inr (Or.inl hw)
  · exact Or.inr (Or.inr (Or.inl hw))

theorem intercalate_space (first : Str) (rest : List Str) :
    (str " ").intercalate (first :: rest) = first ++ rest.flatMap (fun w => str " " ++ w) := by
  induction rest generalizing first with
  | nil => simp [List.intercalate]
  | cons w ws ih =>
      have hcons : (str " ").intercalate (first :: w :: ws) = first ++ str " " ++ (str " ").intercalate (w :: ws) := by
        simp [List.intercalate]
      rw [hcons, ih, List.flatMap_cons, List.append_assoc, List.append_assoc]

theorem encode_words (words : List Str) :
    encode (words.flatMap (fun w => str " " ++ w)) = (words.map encode).flatMap (fun w => space :: w) := by
  have hspace : encode (str " ") = [space] := by decide
  induction words with
  | nil => rfl
  | cons w ws ih =>
      rw [List.flatMap_cons, encode_append, encode_append, ih, hspace, List.map_cons, List.flatMap_cons]
      rfl

theorem encodeHex_eq_nil {bytes : Bytes} : encodeHex bytes = [] ↔ bytes = [] := by
  constructor
  · intro h
    have hlength := encodeHex_length bytes
    rw [h, List.length_nil] at hlength
    exact List.length_eq_zero_iff.mp (by omega)
  · rintro rfl
    rfl

def hexPart (name : String) (bytes : Bytes) : List Str := if bytes = [] then [] else [str name ++ hex bytes]

theorem mem_hexPart {name : String} {bytes : Bytes} {w : Str} :
    w ∈ hexPart name bytes ↔ bytes ≠ [] ∧ w = str name ++ hex bytes := by
  rw [hexPart]
  by_cases hb : bytes = []
  · simp [hb]
  · simp [hb]

theorem encodeRecordCommand_eq (command : Str) (registration : Registration) :
    encodeRecordCommand command registration =
      (str " ").intercalate (command :: ([str "agent_id=" ++ registration.agentId,
        str "node_id=" ++ registration.nodeId, str "endpoint=" ++ registration.endpoint,
        str "revision=" ++ Nat.toDigits 10 registration.revision] ++
          (registration.metadata.items.map metadataLine ++
            (hexPart "public_key=" registration.publicKey ++ hexPart "signature=" registration.signature)))) := by
  simp only [encodeRecordCommand, hexPart]
  by_cases hk : registration.publicKey = []
  · by_cases hs : registration.signature = []
    · simp [hk, hs]
    · simp [hk, hs]
  · by_cases hs : registration.signature = []
    · simp [hk, hs]
    · simp [hk, hs]

theorem map_encode_hexPart {name : String} (h : encode (str name) = ascii name) (bytes : Bytes) :
    (hexPart name bytes).map encode = if encodeHex bytes = [] then [] else [ascii name ++ encodeHex bytes] := by
  rw [hexPart]
  by_cases hb : bytes = []
  · simp [hb, encodeHex_eq_nil.mpr]
  · simp [hb, encodeHex_eq_nil, encode_append, encode_hex, h]

theorem encode_encodeRecordCommand (command : Str) (registration : Registration) :
    encode (encodeRecordCommand command registration) =
      encode command ++ (commandTokens registration).flatMap (fun w => space :: w) := by
  have ha : encode (str "agent_id=") = ascii "agent_id=" := by decide
  have ho : encode (str "node_id=") = ascii "node_id=" := by decide
  have hp : encode (str "endpoint=") = ascii "endpoint=" := by decide
  have hr : encode (str "revision=") = ascii "revision=" := by decide
  have hk : encode (str "public_key=") = ascii "public_key=" := by decide
  have hs : encode (str "signature=") = ascii "signature=" := by decide
  have hm : (registration.metadata.items.map metadataLine).map encode =
      (registration.metadata.items.map encodePair).map metadataToken := by
    rw [List.map_map, List.map_map]
    exact List.map_congr_left fun p _ => encode_metadataLine p
  rw [encodeRecordCommand_eq, intercalate_space, encode_append, encode_words]
  simp only [List.map_append, List.map_cons, List.map_nil, encode_append, encode_digits, ha, ho, hp, hr, hm,
    map_encode_hexPart hk, map_encode_hexPart hs]
  rfl

theorem parseFields_commandTokens (h : Sendable registration) (action : ControlAction) (t : TimePoint) :
    parseFields { action := action, registration := { expiresAt := t } } (commandTokens registration) =
      { action := action, registration := (keyedRecord registration).restamp t
        agentId := encode registration.agentId } := by
  have hequals : ∀ p ∈ registration.metadata.items.map encodePair, equals ∉ p.1 := by
    intro p hp
    exact (h.wireSafe.metadata p ((h.encodesTo.metadata p).mpr hp)).2.1
  have hrevision : decimal registration.revision = decimal (keyedRecord registration).revision.toNat := by
    rw [h.encodesTo.revision]
  rw [commandTokens, hrevision, List.cons_append, parseFields_cons _ rfl, List.cons_append, parseFields_cons _ rfl,
    List.cons_append, parseFields_cons _ rfl, List.cons_append,
    parseFields_cons _ (by rw [parseField_revision]; rfl), parseField_revision, List.nil_append,
    parseFields_metadata _ hequals _ _ rfl, parseFields_keyTokens _ _ _ rfl rfl,
    ← List.append_nil (signatureTokens (keyedRecord registration)), parseFields_signatureTokens _ _ _ rfl rfl]
  rfl

theorem parseCommand_command (h : Sendable registration) (lifecycle : LifecycleConfig) (now : TimePoint) {verb : Str}
    {action : ControlAction} (hne : encode verb ≠ []) (hv : SpaceFree (encode verb))
    (hs : startCommand lifecycle now (encode verb) =
      { action := action, registration := { expiresAt := now + milliseconds lifecycle.heartbeatTtl } }) :
    parseCommand lifecycle now (encode (encodeRecordCommand verb registration)) =
      { action := action, agentId := encode registration.agentId
        registration := (keyedRecord registration).restamp (now + milliseconds lifecycle.heartbeatTtl) } := by
  have htokens : splitTokens (encode (encodeRecordCommand verb registration)) =
      encode verb :: commandTokens registration := by
    rw [encode_encodeRecordCommand]
    apply splitTokens_words
    intro w hw
    rcases List.mem_cons.mp hw with rfl | hw
    · exact ⟨hne, hv⟩
    · exact recordTokens_word h.wireSafe (h.mem_recordTokens hw)
  have hagent : encode registration.agentId ≠ [] := h.wireSafe.agentId_ne
  have hnode : (keyedRecord registration).nodeId ≠ [] := h.addressed.1
  have hendpoint : (keyedRecord registration).endpoint ≠ [] := h.addressed.2
  rw [parseCommand, htokens]
  simp only [hs, parseFields_commandTokens h, ne_eq, not_true_eq_false, if_false]
  simp [requiredFields, hagent, hnode, hendpoint]

structure Reads (registration : Registration) (action : ControlAction) (command : ControlCommand) : Prop where
  error : command.error = []
  action : command.action = action
  fields : EncodesTo registration.toAgentRegistration command.registration
  publicKey : decodeHex command.registration.publicKeyHex = registration.publicKey
  signature : decodeHex command.registration.signatureHex = registration.signature

theorem reads_keyedRecord (h : Sendable registration) (action : ControlAction) (t : TimePoint) :
    Reads registration action { action := action, agentId := encode registration.agentId
                                registration := (keyedRecord registration).restamp t } where
  error := rfl
  action := rfl
  fields := { h.encodesTo with }
  publicKey := decodeHex_encodeHex registration.publicKey
  signature := decodeHex_encodeHex registration.signature

/-- The engine reads what the SDK sends. -/
theorem engine_reads_sdk_commands (lifecycle : LifecycleConfig) (now : TimePoint) (registration : Registration)
    (h : Sendable registration) :
    Reads registration .register (parseCommand lifecycle now (encode (encodeRegister registration))) ∧
      Reads registration .merge (parseCommand lifecycle now (encode (encodeMerge registration))) := by
  constructor
  · rw [encodeRegister, parseCommand_command h lifecycle now (by decide) (by decide) rfl]
    exact reads_keyedRecord h .register _
  · rw [encodeMerge, parseCommand_command h lifecycle now (by decide) (by decide) rfl]
    exact reads_keyedRecord h .merge _

def taggedRegistration : Registration where
  agentId := str "agent-é"
  nodeId := str "node-1"
  endpoint := str "127.0.0.1:9000"
  metadata := ⟨[(str "query", str "a=b"), ([], [])], by decide⟩
  revision := 7
  publicKey := [1, 171]

theorem engine_reads_taggedRegistration :
    Reads taggedRegistration .register (parseCommand {} 0 (encode (encodeRegister taggedRegistration))) := by
  refine (engine_reads_sdk_commands {} 0 taggedRegistration ⟨?_, ?_, ?_, ?_, ?_, ?_, ?_, ?_⟩).1
  · decide
  · decide
  · decide
  · decide
  · decide
  · decide
  · decide
  · decide

end BeaconNode.PythonClient
