import BeaconNode.AcceptedLines
import BeaconNode.Runs
import BeaconNode.SignedRegistry

namespace BeaconNode.ListReplies

open Words TextStream OrderedMap Records Crypto Identity Registry KeyedList LineProtocol SyncClient RecordCodec
  AcceptedLines ControlRuns ProtobufControl SignedRegistry Runs

def ReadsBack (server : Server) (now readerNow : TimePoint) (node : Node) : Prop :=
  parseAgentLines readerNow (handleLine server.platform server.protocol now node (ascii "LIST")).2 =
    node.registry.list.map (fun r => r.restamp (readerNow + minutes 1))

def AllWireSafe (node : Node) : Prop := ∀ r ∈ node.registry.records, WireSafe r

/-- A payload puts no record into the registry that the line format cannot
carry. -/
def StoresWireSafe (server : Server) (node : Node) : Request → Prop
  | .line _ _ => True
  | .payload now bytes => ∀ record, operationOf server (.payload now bytes) = .submit record →
      accepts server.platform.sodium server.protocol.trust node record = true → WireSafe record

variable {server : Server} {node : Node} {r : AgentRecord} {token : Bytes}

theorem parseAgentField_fieldSafe (h : FieldSafe r) (ht : SpaceFree token) : FieldSafe (parseAgentField r token) := by
  have hv : SpaceFree (fieldValue token) := getValue_spaceFree ht
  rw [parseAgentField]
  refine iteInduction (fun _ => { h with agentId := hv }) fun _ => ?_
  refine iteInduction (fun _ => { h with nodeId := hv }) fun _ => ?_
  refine iteInduction (fun _ => { h with endpoint := hv }) fun _ => ?_
  refine iteInduction (fun _ => { h with }) fun _ => ?_
  refine iteInduction (fun _ => { h with publicKeyHex := hv }) fun _ => ?_
  refine iteInduction (fun _ => { h with signatureHex := hv }) fun _ => ?_
  exact iteInduction (fun _ => setMetadata_fieldSafe h ht) fun _ => h

theorem foldl_parseAgentField_fieldSafe {tokens : List Bytes} (h : FieldSafe r) (ht : ∀ t ∈ tokens, SpaceFree t) :
    FieldSafe (tokens.foldl parseAgentField r) := by
  induction tokens generalizing r with
  | nil => exact h
  | cons token tokens ih =>
      exact ih (parseAgentField_fieldSafe h (ht token (by simp))) fun t hm => ht t (by simp [hm])

/-- Whatever text it is given, the reader only makes records that could have
been written. -/
theorem parseAgentLine_wireSafe {now : TimePoint} {line : Bytes} (h : parseAgentLine now line = some r) :
    WireSafe r := by
  rw [parseAgentLine] at h
  cases ht : splitTokens line with
  | nil =>
      rw [ht] at h
      cases h
  | cons verb fields =>
      have hread := foldl_parseAgentField_fieldSafe (fieldSafe_empty (now + minutes 1)) (splitTokens_fields ht)
      rw [ht] at h
      dsimp only at h
      split at h
      · split at h
        · cases h
        next hne =>
          obtain rfl := Option.some.inj h
          exact { hread with agentId_ne := hne }
      · cases h

theorem readsBack_iff (server : Server) (now readerNow : TimePoint) (node : Node) :
    ReadsBack server now readerNow node ↔ AllWireSafe node := by
  have htext : (handleLine server.platform server.protocol now node (ascii "LIST")).2 =
      okResponse (ascii "list") ++ agentLines node.registry.list ++ ascii "END\n" := rfl
  rw [ReadsBack, htext]
  constructor
  · intro h r hr
    have hm : r.restamp (readerNow + minutes 1) ∈
        parseAgentLines readerNow (okResponse (ascii "list") ++ agentLines node.registry.list ++ ascii "END\n") := by
      rw [h]
      exact List.mem_map_of_mem hr
    obtain ⟨line, -, hl⟩ := List.mem_filterMap.mp hm
    exact (parseAgentLine_wireSafe hl).restamp r.expiresAt
  · intro h
    exact parseAgentLines_reply "list" (by decide) node.registry.list h readerNow

theorem allWireSafe_submit {sodium : Option Verifier} {trust : TrustConfig} {record : AgentRecord}
    (h : AllWireSafe node) :
    AllWireSafe (submitEffect sodium trust node record) ↔
      (accepts sodium trust node record = true → WireSafe record) := by
  rw [submitEffect_eq]
  cases accepts sodium trust node record with
  | false =>
      simp only [Bool.false_eq_true, if_false, false_imp_iff, iff_true]
      exact h
  | true =>
      simp only [if_true, true_imp_iff]
      constructor
      · intro hn
        apply hn
        have hf : findRecord record.agentId (storeRecord record node.registry.records) = some record := by
          rw [findRecord_storeRecord, if_pos rfl]
        exact lookup_mem hf
      · intro hw r hr
        rcases mem_put hr with rfl | hr
        · exact hw
        · exact h r hr

theorem allWireSafe_heartbeat {lifecycle : LifecycleConfig} {now : TimePoint} {agentId : Bytes} {revision : UInt64}
    (h : AllWireSafe node) : AllWireSafe (handleHeartbeat lifecycle now node agentId revision).1 := by
  intro r hr
  rcases mem_handleHeartbeat hr with hr | ⟨-, -, existing, hm, -, hx⟩
  · exact h r hr
  · rw [hx]
    exact (h existing hm).refresh _ _

theorem allWireSafe_serve (request : Request) (h : AllWireSafe node) :
    AllWireSafe (serve server node request) ↔ StoresWireSafe server node request := by
  obtain ⟨now, hs⟩ := serve_registry server node request
  have hop : AllWireSafe (serve server node request) ↔ ∀ record, operationOf server request = .submit record →
      accepts server.platform.sodium server.protocol.trust node record = true → WireSafe record := by
    rw [AllWireSafe, hs]
    cases operationOf server request with
    | submit record =>
        simp only [Operation.submit.injEq, forall_eq']
        exact allWireSafe_submit h
    | refresh agentId revision => exact iff_of_true (allWireSafe_heartbeat h) nofun
    | query => exact iff_of_true h nofun
  rw [hop]
  cases request with
  | line now text => exact iff_of_true (fun record ho _ => (parseCommand_submit ho).1) trivial
  | payload now bytes => exact Iff.rfl

/-- The LIST reply shows the registry as it is in every state of a run exactly
when no payload of the run stores a record with white space in a field or an
equals sign in a metadata key. -/
theorem readsBack_iff_storesWireSafe (server : Server) (identity : Option IdentityService)
    (now readerNow : TimePoint) (requests : List Request) :
    Always (serve server) (ReadsBack server now readerNow) { identity := identity } requests ↔
      Along (serve server) (StoresWireSafe server) { identity := identity } requests := by
  apply always_iff_along (I := fun _ => True) (A := fun _ _ => True)
  · trivial
  · exact (readsBack_iff _ _ _ _).mpr fun r hr => absurd hr List.not_mem_nil
  · exact fun _ _ _ _ => trivial
  · intro node request _ _ h
    rw [readsBack_iff] at h ⊢
    exact allWireSafe_serve request h
  · exact fun _ _ _ => trivial

def splittingProto : AgentRegistration where
  agentId := ascii "agent-1"
  nodeId := ascii "n"
  endpoint := ascii "e:1\nAGENT agent_id=ghost node_id=n endpoint=x:1"
  revision := 1

def splittingPayload : Bytes :=
  [10, 63, 10, 7] ++ ascii "agent-1" ++ [18, 1] ++ ascii "n" ++
    [26, 47] ++ ascii "e:1\nAGENT agent_id=ghost node_id=n endpoint=x:1" ++ [40, 1]

def openServer : Server where
  platform := ⟨none, insertionRevisionSort⟩
  codec := ⟨fun bytes => if bytes = splittingPayload then some (.registerAgent splittingProto) else none,
    fun _ => none⟩
  protocol := {}

theorem splittingPayload_agents :
    (parseAgentLines 0 (handleLine openServer.platform openServer.protocol 0
        (serve openServer {} (.payload 0 splittingPayload)) (ascii "LIST")).2).map AgentRecord.agentId =
      [ascii "agent-1", ascii "ghost"] := by
  decide +kernel

theorem splittingPayload_not_readsBack :
    openServer.protocol.trust.requireSignatures = false ∧
      ¬ Always (serve openServer) (ReadsBack openServer 0 0) {} [.payload 0 splittingPayload] := by
  refine ⟨rfl, fun h => ?_⟩
  have hlast := congrArg (List.map AgentRecord.agentId) h.last
  rw [List.foldl_cons, List.foldl_nil, splittingPayload_agents] at hlast
  exact absurd hlast (by decide +kernel)

end BeaconNode.ListReplies
