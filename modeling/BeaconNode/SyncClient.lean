import BeaconNode.LineProtocol

namespace BeaconNode.SyncClient

open Words TextStream OrderedMap Records Crypto Identity Registry LineProtocol

structure SyncPlan where
  localRevision : UInt64
  pushEntries : List AgentRecord

structure SyncResult where
  pulled : Nat
  pushed : Nat

def planPushPull (S : RevisionSort) (maxEntries : UInt64) (registry : AgentRegistry)
    (remoteRevision : UInt64) : SyncPlan :=
  ⟨registry.stats.highestRevision, registry.entriesAfterRevision S remoteRevision maxEntries⟩

/-- The agent line with its first word replaced and its newline removed. -/
def encodeMergeCommand (record : AgentRecord) : Bytes :=
  let command := ascii "MERGE" ++ (encodeAgentLine record).drop 5
  if command.getLast? = some newline then command.dropLast else command

def encodeSyncPullCommand (afterRevision limit : UInt64) : Bytes :=
  ascii "SYNC_PULL after_revision=" ++ decimal afterRevision.toNat ++ ascii " limit=" ++ decimal limit.toNat

def fieldValue (token : Bytes) : Bytes := getValue token

/-- Here the result of parse_revision is ignored: a number with other text
after it still overwrites the revision. -/
def parseAgentField (record : AgentRecord) (token : Bytes) : AgentRecord :=
  if startsWith token (ascii "agent_id=") then { record with agentId := fieldValue token }
  else if startsWith token (ascii "node_id=") then { record with nodeId := fieldValue token }
  else if startsWith token (ascii "endpoint=") then { record with endpoint := fieldValue token }
  else if startsWith token (ascii "revision=") then
    { record with revision := (parseRevision (fieldValue token) record.revision).1 }
  else if startsWith token (ascii "public_key=") then { record with publicKeyHex := fieldValue token }
  else if startsWith token (ascii "signature=") then { record with signatureHex := fieldValue token }
  else if startsWith token (ascii "metadata.") then setMetadata record token
  else record

def parseAgentLine (now : TimePoint) (line : Bytes) : Option AgentRecord :=
  match splitTokens line with
  | [] => none
  | verb :: fields =>
      if verb = ascii "AGENT" then
        let record := fields.foldl parseAgentField { expiresAt := now + minutes 1 }
        if record.agentId = [] then none else some record
      else none

def parseAgentLines (now : TimePoint) (response : Bytes) : List AgentRecord :=
  (getLines response).filterMap (parseAgentLine now)

def parseHighestRevision (response : Bytes) : UInt64 :=
  match (splitTokens response).find? (startsWith · (ascii "highest_revision=")) with
  | none => 0
  | some token => (parseRevision (fieldValue token) 0).1

/-- One connection to the peer's control port. The server reads one line;
none of the commands sent here starts like a binary frame. -/
def sendCommand (platform : Platform) (protocol : ControlProtocol) (now : TimePoint) (peer : Node)
    (command : Bytes) : Node × Bytes :=
  handleLine platform protocol now peer (firstLine (command ++ ascii "\n"))

def mergeResponse (sodium : Option Verifier) (now : TimePoint) (node : Node) (response : Bytes) : Node × Nat :=
  merge sodium node (parseAgentLines now response)

def pushEntries (platform : Platform) (protocol : ControlProtocol) (now : TimePoint) (peer : Node)
    (entries : List AgentRecord) : Node × Nat :=
  entries.foldl (fun (state : Node × Nat) entry =>
    let (peer, response) := sendCommand platform protocol now state.1 (encodeMergeCommand entry)
    (peer, if startsWith response (ascii "OK") then state.2 + 1 else state.2)) (peer, 0)

structure Exchange where
  here : Node
  peer : Node
  result : SyncResult

/-- One round against a peer that serves its control port under its own
protocol settings and its own clock. -/
def syncWithPeer (platform : Platform) (maxEntries : UInt64) (now : TimePoint) (here : Node)
    (peerProtocol : ControlProtocol) (peerNow : TimePoint) (peer : Node) : Exchange :=
  let localRevision := here.registry.stats.highestRevision
  let (peer, remoteStats) := sendCommand platform peerProtocol peerNow peer (ascii "STATS")
  let remoteRevision := parseHighestRevision remoteStats
  let (peer, response) :=
    sendCommand platform peerProtocol peerNow peer (encodeSyncPullCommand localRevision maxEntries)
  let (here, pulled) := mergeResponse platform.sodium now here response
  let plan := planPushPull platform.revisionSort maxEntries here.registry remoteRevision
  let (peer, pushed) := pushEntries platform peerProtocol peerNow peer plan.pushEntries
  ⟨here, peer, ⟨pulled, pushed⟩⟩

end BeaconNode.SyncClient
