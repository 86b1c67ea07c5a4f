import BeaconNode.Registry

namespace BeaconNode.LineProtocol

open Words TextStream OrderedMap Records Crypto Identity Registry

inductive ControlAction
  | register | heartbeat | list | stats | merge | syncPull | unknown
  deriving DecidableEq

structure ControlCommand where
  action : ControlAction := .unknown
  registration : AgentRecord
  agentId : Bytes := []
  error : Bytes := []
  afterRevision : UInt64 := 0
  limit : UInt64 := 256
  deriving DecidableEq

structure ControlProtocol where
  lifecycle : LifecycleConfig := {}
  trust : TrustConfig := {}

/-- What the engine is linked against: the signature check of libsodium and
the sort of the standard library. -/
structure Platform where
  sodium : Option Verifier
  revisionSort : RevisionSort

/-- The value left in the target, and whether all of the text was a number. -/
def parseRevision (value : Bytes) (revision : UInt64) : UInt64 × Bool :=
  let result := fromChars value
  match result.value with
  | none => (revision, false)
  | some parsed => (parsed, result.rest = [])

def getValue (token : Bytes) : Bytes := (splitEquals token).2.getD []

def setMetadata (record : AgentRecord) (token : Bytes) : AgentRecord :=
  match splitEquals token with
  | (name, some value) => { record with metadata := record.metadata.insert (name.drop 9) value }
  | (_, none) => record

/-- The three numeric fields: a value that is not a number in full sets the
error instead. -/
def parseNumber (command : ControlCommand) (value : Bytes) (set : UInt64 → ControlCommand)
    (error : Bytes) : ControlCommand :=
  match parseRevision value 0 with
  | (number, true) => set number
  | (_, false) => { command with error := error }

def parseField (command : ControlCommand) (token : Bytes) : ControlCommand :=
  if startsWith token (ascii "agent_id=") then
    { command with agentId := getValue token, registration := { command.registration with agentId := getValue token } }
  else if startsWith token (ascii "node_id=") then
    { command with registration := { command.registration with nodeId := getValue token } }
  else if startsWith token (ascii "endpoint=") then
    { command with registration := { command.registration with endpoint := getValue token } }
  else if startsWith token (ascii "revision=") then
    parseNumber command (getValue token)
      (fun n => { command with registration := { command.registration with revision := n } })
      (ascii "invalid revision")
  else if startsWith token (ascii "after_revision=") then
    parseNumber command (getValue token) (fun n => { command with afterRevision := n })
      (ascii "invalid after_revision")
  else if startsWith token (ascii "limit=") then
    parseNumber command (getValue token) (fun n => { command with limit := n }) (ascii "invalid limit")
  else if startsWith token (ascii "public_key=") then
    { command with registration := { command.registration with publicKeyHex := getValue token } }
  else if startsWith token (ascii "signature=") then
    { command with registration := { command.registration with signatureHex := getValue token } }
  else if startsWith token (ascii "metadata.") then
    { command with registration := setMetadata command.registration token }
  else command

def parseFields (command : ControlCommand) : List Bytes → ControlCommand
  | [] => command
  | token :: tokens =>
      let next := parseField command token
      if next.error ≠ [] then next else parseFields next tokens

def requiredFields (command : ControlCommand) : ControlCommand :=
  if (command.action = .register ∨ command.action = .merge ∨ command.action = .heartbeat) ∧
      command.agentId = [] then { command with error := ascii "agent_id is required" }
  else if (command.action = .register ∨ command.action = .merge) ∧
      (command.registration.nodeId = [] ∨ command.registration.endpoint = []) then
    { command with error := ascii "node_id and endpoint are required" }
  else command

/-- The command before its fields are read: the verb fixes the action, and
the two verbs that carry a record stamp it with the heartbeat lifetime. -/
def startCommand (lifecycle : LifecycleConfig) (now : TimePoint) (verb : Bytes) : ControlCommand :=
  let stamped := now + milliseconds lifecycle.heartbeatTtl
  if verb = ascii "REGISTER" then { action := .register, registration := { expiresAt := stamped } }
  else if verb = ascii "MERGE" then { action := .merge, registration := { expiresAt := stamped } }
  else if verb = ascii "HEARTBEAT" then { action := .heartbeat, registration := { expiresAt := now } }
  else if verb = ascii "LIST" then { action := .list, registration := { expiresAt := now } }
  else if verb = ascii "STATS" then { action := .stats, registration := { expiresAt := now } }
  else if verb = ascii "SYNC_PULL" then { action := .syncPull, registration := { expiresAt := now } }
  else { error := ascii "unknown command", registration := { expiresAt := now } }

def parseCommand (lifecycle : LifecycleConfig) (now : TimePoint) (line : Bytes) : ControlCommand :=
  match splitTokens line with
  | [] => { error := ascii "empty command", registration := { expiresAt := now } }
  | verb :: fields =>
      let command := startCommand lifecycle now verb
      if command.error ≠ [] then command
      else
        let command := parseFields command fields
        if command.error ≠ [] then command else requiredFields command

def encodeAgentLine (record : AgentRecord) : Bytes :=
  let line := ascii "AGENT agent_id=" ++ record.agentId ++ ascii " node_id=" ++ record.nodeId ++
    ascii " endpoint=" ++ record.endpoint ++ ascii " revision=" ++ decimal record.revision.toNat
  let line := if record.publicKeyHex ≠ [] then line ++ ascii " public_key=" ++ record.publicKeyHex else line
  let line := if record.signatureHex ≠ [] then line ++ ascii " signature=" ++ record.signatureHex else line
  let line := record.metadata.entries.foldl
    (fun line p => line ++ ascii " metadata." ++ p.1 ++ ascii "=" ++ p.2) line
  line ++ ascii "\n"

def agentLines (records : List AgentRecord) : Bytes := records.flatMap encodeAgentLine

def errorResponse (message : Bytes) : Bytes := ascii "ERR message=" ++ message ++ ascii "\n"
def okResponse (message : Bytes) : Bytes := ascii "OK message=" ++ message ++ ascii "\n"

/-- The common body of the REGISTER and MERGE branches, which differ in the
word of the reply. The result of register_identity is dropped there too. -/
def submitRecord (sodium : Option Verifier) (trust : TrustConfig) (node : Node) (record : AgentRecord)
    (done : Bytes) : Node × Bytes :=
  match signatureRefusal sodium trust record with
  | some message => (node, errorResponse message)
  | none =>
      let (node, accepted) := node.upsert record
      if accepted then
        ({ node with identity := registerIdentity sodium node.identity record }, okResponse done)
      else (node, errorResponse (ascii "stale_revision"))

def handleHeartbeat (lifecycle : LifecycleConfig) (now : TimePoint) (node : Node) (agentId : Bytes)
    (revision : UInt64) : Node × Bool :=
  let (registry, accepted) :=
    node.registry.refreshHeartbeat agentId (now + milliseconds lifecycle.heartbeatTtl) revision
  ({ node with registry := registry }, accepted)

def statsText (stats : RegistryStats) : Bytes :=
  ascii "active_agents=" ++ decimal stats.activeAgents ++
    ascii " highest_revision=" ++ decimal stats.highestRevision.toNat

def handleLine (platform : Platform) (protocol : ControlProtocol) (now : TimePoint) (node : Node)
    (line : Bytes) : Node × Bytes :=
  let command := parseCommand protocol.lifecycle now line
  if command.error ≠ [] then (node, errorResponse command.error)
  else match command.action with
    | .register => submitRecord platform.sodium protocol.trust node command.registration (ascii "registered")
    | .merge => submitRecord platform.sodium protocol.trust node command.registration (ascii "merged")
    | .heartbeat =>
        let (node, accepted) :=
          handleHeartbeat protocol.lifecycle now node command.agentId command.registration.revision
        (node, if accepted then okResponse (ascii "heartbeat")
          else errorResponse (ascii "unknown_or_stale_agent"))
    | .stats => (node, ascii "OK " ++ statsText node.registry.stats ++ ascii "\n")
    | .list => (node, okResponse (ascii "list") ++ agentLines node.registry.list ++ ascii "END\n")
    | .syncPull =>
        (node, okResponse (ascii "sync_pull") ++
          agentLines (node.registry.entriesAfterRevision platform.revisionSort command.afterRevision
            command.limit) ++ ascii "END\n")
    | .unknown => (node, errorResponse (ascii "unhandled_command"))

/-- The state after a record has passed the signature policy and upsert. -/
def acceptRecord (sodium : Option Verifier) (node : Node) (record : AgentRecord) : Node :=
  ⟨⟨storeRecord record node.registry.records, node.registry.onUpsert ++ [record]⟩,
    registerIdentity sodium node.identity record⟩

def submitEffect (sodium : Option Verifier) (trust : TrustConfig) (node : Node) (record : AgentRecord) : Node :=
  if signatureAllowed sodium trust record && admits node.registry.records record then
    acceptRecord sodium node record
  else node

inductive Operation
  | submit (record : AgentRecord)
  | refresh (agentId : Bytes) (revision : UInt64)
  | query
  deriving DecidableEq

def operation (command : ControlCommand) : Operation :=
  if command.error ≠ [] then .query
  else match command.action with
    | .register | .merge => .submit command.registration
    | .heartbeat => .refresh command.agentId command.registration.revision
    | .stats | .list | .syncPull | .unknown => .query

def perform (sodium : Option Verifier) (protocol : ControlProtocol) (now : TimePoint) (node : Node) :
    Operation → Node
  | .submit record => submitEffect sodium protocol.trust node record
  | .refresh agentId revision => (handleHeartbeat protocol.lifecycle now node agentId revision).1
  | .query => node

def accepts (sodium : Option Verifier) (trust : TrustConfig) (node : Node) (record : AgentRecord) : Bool :=
  signatureAllowed sodium trust record && admits node.registry.records record

def refusal (sodium : Option Verifier) (trust : TrustConfig) (record : AgentRecord) : Bytes :=
  (signatureRefusal sodium trust record).getD (ascii "stale_revision")

theorem submitEffect_eq (sodium : Option Verifier) (trust : TrustConfig) (node : Node) (record : AgentRecord) :
    submitEffect sodium trust node record =
      if accepts sodium trust node record then acceptRecord sodium node record else node := rfl

theorem submitRecord_eq (sodium : Option Verifier) (trust : TrustConfig) (node : Node) (record : AgentRecord)
    (done : Bytes) :
    submitRecord sodium trust node record done =
      if accepts sodium trust node record then (acceptRecord sodium node record, okResponse done)
      else (node, errorResponse (refusal sodium trust record)) := by
  cases hs : signatureRefusal sodium trust record with
  | some message => simp [submitRecord, accepts, refusal, signatureAllowed, hs]
  | none =>
      cases ha : admits node.registry.records record with
      | true =>
          simp [submitRecord, accepts, signatureAllowed, hs, ha, Node.upsert, upsert_eq, acceptRecord]
      | false =>
          simp [submitRecord, accepts, refusal, signatureAllowed, hs, ha, Node.upsert, upsert_eq]

theorem submitRecord_node (sodium : Option Verifier) (trust : TrustConfig) (node : Node)
    (record : AgentRecord) (done : Bytes) :
    (submitRecord sodium trust node record done).1 = submitEffect sodium trust node record := by
  rw [submitRecord_eq, submitEffect_eq]
  split
  · rfl
  · rfl

theorem handleLine_node (platform : Platform) (protocol : ControlProtocol) (now : TimePoint) (node : Node)
    (line : Bytes) :
    (handleLine platform protocol now node line).1 =
      perform platform.sodium protocol now node (operation (parseCommand protocol.lifecycle now line)) := by
  simp only [handleLine, operation]
  split
  · rfl
  · cases (parseCommand protocol.lifecycle now line).action with
    | register | merge => exact submitRecord_node _ _ _ _ _
    | heartbeat | list | stats | syncPull | unknown => rfl

end BeaconNode.LineProtocol
