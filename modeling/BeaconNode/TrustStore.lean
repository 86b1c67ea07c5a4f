import BeaconNode.SignedRegistry

namespace BeaconNode.TrustStore

open Words TextStream Records Crypto Identity Registry LineProtocol ControlRuns ProtobufControl SignedRegistry

/-- Everything that reaches a running engine's trust store or stands next to
something that does. -/
inductive TrustEvent
  | request (request : Request)
  | merge (records : List AgentRecord)
  | purge (now : TimePoint)

def trustStep (server : Server) (node : Node) : TrustEvent → Node
  | .request request => serve server node request
  | .merge records => (merge server.platform.sodium node records).1
  | .purge now => { node with registry := (node.registry.purgeExpired now).1 }

def presented (server : Server) : TrustEvent → List AgentRecord
  | .request request =>
      match operationOf server request with
      | .submit record => [record]
      | .refresh _ _ | .query => []
  | .merge records => records
  | .purge _ => []

def trustedKey (node : Node) (agentId : Bytes) : Option Bytes :=
  node.identity.bind (fun identity => identity.pinnedKey agentId)

/-- A validly signed record that carries the key. -/
def Vouched (sodium : Option Verifier) (records : List AgentRecord) (agentId key : Bytes) : Prop :=
  ∃ r ∈ records, r.agentId = agentId ∧ verifyAgentSignature sodium r = .valid ∧ decodeHex r.publicKeyHex = key

/-- Keys are only added, for agents that have none, and each new one is
vouched for by one of the records. -/
def Pins (sodium : Option Verifier) (records : List AgentRecord) (before after : Node) : Prop :=
  ∀ agentId, trustedKey after agentId = trustedKey before agentId ∨
    trustedKey before agentId = none ∧
      ∃ key, trustedKey after agentId = some key ∧ Vouched sodium records agentId key

variable {sodium : Option Verifier} {records more : List AgentRecord} {server : Server}
  {node before between after : Node}

theorem Vouched.mono {agentId key : Bytes} (h : Vouched sodium records agentId key) (hs : records ⊆ more) :
    Vouched sodium more agentId key := by
  obtain ⟨r, hr, hv⟩ := h
  exact ⟨r, hs hr, hv⟩

theorem pins_of_identity_eq (h : after.identity = before.identity) : Pins sodium records before after := by
  intro agentId
  exact Or.inl (by rw [trustedKey, trustedKey, h])

theorem Pins.trans (h : Pins sodium records before between) (k : Pins sodium more between after) :
    Pins sodium (records ++ more) before after := by
  intro agentId
  rcases k agentId with hk | ⟨hnone, key, hkey, hv⟩
  · rcases h agentId with hh | ⟨hnone, key, hkey, hv⟩
    · exact Or.inl (hk.trans hh)
    · exact Or.inr ⟨hnone, key, hk.trans hkey, hv.mono (List.subset_append_left _ _)⟩
  · -- a key that is new in the second part was not there before the first
    have hbefore : trustedKey before agentId = none := by
      rcases h agentId with hh | ⟨hnone', -⟩
      · exact hh ▸ hnone
      · exact hnone'
    exact Or.inr ⟨hbefore, key, hkey, hv.mono (List.subset_append_right _ _)⟩

theorem Pins.keeps {agentId key : Bytes} (h : Pins sodium records before after)
    (hk : trustedKey before agentId = some key) : trustedKey after agentId = some key := by
  rcases h agentId with hh | ⟨hnone, -⟩
  · rw [hh, hk]
  · rw [hnone] at hk
    cases hk

theorem Pins.vouched {agentId key : Bytes} (h : Pins sodium records before after)
    (hb : trustedKey before agentId = none) (ha : trustedKey after agentId = some key) :
    Vouched sodium records agentId key := by
  rcases h agentId with hh | ⟨-, key', hkey, hv⟩
  · rw [hh, hb] at ha
    cases ha
  · rw [hkey, Option.some.injEq] at ha
    exact ha ▸ hv

theorem pins_verifyAndRegister {record : AgentRecord} (hr : record ∈ records)
    (h : after.identity = before.identity.map (fun identity => (identity.verifyAndRegister sodium record).1)) :
    Pins sodium records before after := by
  intro agentId
  cases hb : before.identity with
  | none => exact Or.inl (by simp [trustedKey, h, hb])
  | some identity =>
      simp only [trustedKey, h, hb, Option.map_some, Option.bind_some, pinnedKey_verifyAndRegister]
      split
      next hv => exact Or.inr ⟨hv.2.2, _, rfl, record, hr, hv.2.1.symm, hv.1, rfl⟩
      next => exact Or.inl rfl

theorem pins_registerIdentity {record : AgentRecord} (hr : record ∈ records)
    (h : after.identity = registerIdentity sodium before.identity record) : Pins sodium records before after := by
  cases hb : before.identity with
  | none => exact pins_of_identity_eq (by rw [h, hb]; rfl)
  | some identity =>
      by_cases hk : record.publicKeyHex = []
      · exact pins_of_identity_eq (by simp [h, hb, registerIdentity, hk])
      · exact pins_verifyAndRegister hr (by simp [h, hb, registerIdentity, hk])

theorem pins_merge (node : Node) (records : List AgentRecord) :
    Pins sodium records node (merge sodium node records).1 := by
  rw [merge_node]
  induction records generalizing node with
  | nil => exact pins_of_identity_eq rfl
  | cons r rs ih =>
      have hfirst : Pins sodium [r] node (mergeRecord sodium node r).1 :=
        pins_verifyAndRegister (List.mem_singleton_self r) (mergeRecord_identity sodium node r)
      exact hfirst.trans (ih _)

theorem pins_line (now : TimePoint) (text : Bytes) :
    Pins server.platform.sodium (presented server (.request (.line now text))) node
      (serve server node (.line now text)) := by
  rw [serve, handleLine_node]
  simp only [presented, operationOf]
  cases operation (parseCommand server.protocol.lifecycle now text) with
  | submit record =>
      simp only [perform, submitEffect_eq]
      split
      · exact pins_registerIdentity (List.mem_singleton_self record) rfl
      · exact pins_of_identity_eq rfl
  | refresh agentId revision => exact pins_of_identity_eq rfl
  | query => exact pins_of_identity_eq rfl

theorem pins_trustStep (server : Server) (node : Node) (event : TrustEvent) :
    Pins server.platform.sodium (presented server event) node (trustStep server node event) := by
  cases event with
  | request request =>
      cases request with
      | line now text => exact pins_line now text
      | payload now bytes => exact pins_of_identity_eq (handleControlRequestPayload_identity _ _ _ _ _ _)
  | merge records => exact pins_merge node records
  | purge now => exact pins_of_identity_eq rfl

theorem pins_run (server : Server) (node : Node) (events : List TrustEvent) :
    Pins server.platform.sodium (events.flatMap (presented server)) node (events.foldl (trustStep server) node) := by
  induction events generalizing node with
  | nil => exact pins_of_identity_eq rfl
  | cons event events ih => exact (pins_trustStep server node event).trans (ih _)

/-- From an empty trust store, every pinned key was presented before in a
validly signed record of its agent, and stays pinned. -/
theorem trust_sound_and_write_once (server : Server) (registry : AgentRegistry) (events : List TrustEvent)
    (agentId key : Bytes)
    (h : trustedKey (events.foldl (trustStep server) ⟨registry, some {}⟩) agentId = some key) :
    Vouched server.platform.sodium (events.flatMap (presented server)) agentId key ∧
      ∀ later, trustedKey ((events ++ later).foldl (trustStep server) ⟨registry, some {}⟩) agentId = some key := by
  constructor
  · exact (pins_run server ⟨registry, some {}⟩ events).vouched rfl h
  · intro later
    rw [List.foldl_append]
    exact (pins_run server _ later).keeps h

theorem trust_sound_signedRecord :
    Vouched strictServer.platform.sodium ([TrustEvent.merge [signedRecord]].flatMap (presented strictServer))
        signedRecord.agentId (decodeHex signedRecord.publicKeyHex) ∧
      ∀ later, trustedKey (([.merge [signedRecord]] ++ later).foldl (trustStep strictServer) ⟨{}, some {}⟩)
        signedRecord.agentId = some (decodeHex signedRecord.publicKeyHex) := by
  apply trust_sound_and_write_once strictServer {} [.merge [signedRecord]]
  decide +kernel

end BeaconNode.TrustStore
