import BeaconNode.Crypto

namespace BeaconNode.Identity

open Words Records Crypto

/-- The trust store, with the newest key first. A hash map's own order is
never observed. -/
structure IdentityService where
  trustStore : List (Bytes × Bytes) := []
  deriving DecidableEq

namespace IdentityService

def pinnedKey (identity : IdentityService) (agentId : Bytes) : Option Bytes :=
  identity.trustStore.lookup agentId

def verifyAndRegister (sodium : Option Verifier) (identity : IdentityService) (record : AgentRecord) :
    IdentityService × SignatureStatus :=
  let status := verifyAgentSignature sodium record
  if status ≠ .valid then (identity, status)
  else
    let publicKey := decodeHex record.publicKeyHex
    if publicKey = [] then (identity, .invalid)
    else match identity.pinnedKey record.agentId with
      | none => (⟨(record.agentId, publicKey) :: identity.trustStore⟩, .valid)
      | some existing => if existing = publicKey then (identity, .valid) else (identity, .invalid)

def checkKeyConsistency (identity : IdentityService) (agentId publicKey : Bytes) : Bool :=
  match identity.pinnedKey agentId with
  | none => true
  | some existing => existing = publicKey

end IdentityService

/-- The guard of register_identity: without a service or without a key the
call does nothing. Its result is not used by the callers. -/
def registerIdentity (sodium : Option Verifier) (identity : Option IdentityService) (record : AgentRecord) :
    Option IdentityService :=
  match identity with
  | none => none
  | some service =>
      if record.publicKeyHex = [] then some service
      else some (service.verifyAndRegister sodium record).1

open IdentityService

variable {sodium : Option Verifier} {identity : IdentityService} {record : AgentRecord}

theorem verifyAndRegister_of_not_valid (h : verifyAgentSignature sodium record ≠ .valid) :
    identity.verifyAndRegister sodium record = (identity, verifyAgentSignature sodium record) := by
  simp [verifyAndRegister, h]

theorem verifyAndRegister_of_valid (h : verifyAgentSignature sodium record = .valid) :
    identity.verifyAndRegister sodium record =
      match identity.pinnedKey record.agentId with
      | none => (⟨(record.agentId, decodeHex record.publicKeyHex) :: identity.trustStore⟩, .valid)
      | some existing =>
          if existing = decodeHex record.publicKeyHex then (identity, .valid) else (identity, .invalid) := by
  simp [verifyAndRegister, h, decodeHex_ne_nil_of_valid h]

theorem verifyAndRegister_status_missing :
    (identity.verifyAndRegister sodium record).2 = .missing ↔
      verifyAgentSignature sodium record = .missing := by
  by_cases hv : verifyAgentSignature sodium record = .valid
  · rw [verifyAndRegister_of_valid hv, hv]
    split
    · simp
    · split <;> simp
  · rw [verifyAndRegister_of_not_valid hv]

theorem valid_of_verifyAndRegister (h : (identity.verifyAndRegister sodium record).2 = .valid) :
    verifyAgentSignature sodium record = .valid := by
  by_contra hv
  rw [verifyAndRegister_of_not_valid hv] at h
  exact hv h

theorem verifyAndRegister_status_congr {other : IdentityService}
    (h : identity.pinnedKey record.agentId = other.pinnedKey record.agentId) :
    (identity.verifyAndRegister sodium record).2 = (other.verifyAndRegister sodium record).2 := by
  by_cases hv : verifyAgentSignature sodium record = .valid
  · rw [verifyAndRegister_of_valid hv, verifyAndRegister_of_valid hv, h]
    cases other.pinnedKey record.agentId with
    | none => rfl
    | some existing =>
        by_cases he : existing = decodeHex record.publicKeyHex
        · simp [he]
        · simp [he]
  · rw [verifyAndRegister_of_not_valid hv, verifyAndRegister_of_not_valid hv]

/-- All a call can do to the store is to pin the key of a valid record for
an agent that has none. -/
theorem pinnedKey_verifyAndRegister (agentId : Bytes) :
    (identity.verifyAndRegister sodium record).1.pinnedKey agentId =
      if verifyAgentSignature sodium record = .valid ∧ agentId = record.agentId ∧
          identity.pinnedKey agentId = none then
        some (decodeHex record.publicKeyHex)
      else identity.pinnedKey agentId := by
  by_cases hv : verifyAgentSignature sodium record = .valid
  · rw [verifyAndRegister_of_valid hv]
    by_cases ha : agentId = record.agentId
    · subst ha
      cases hp : identity.pinnedKey record.agentId with
      | none => simp [hv, pinnedKey]
      | some existing =>
          by_cases he : existing = decodeHex record.publicKeyHex
          · simp [he, hp]
          · simp [he, hp]
    · have hb : (agentId == record.agentId) = false := by simpa using ha
      simp only [ha, false_and, and_false, if_false]
      split
      · simp [pinnedKey, List.lookup_cons, hb]
      · split <;> rfl
  · simp [verifyAndRegister_of_not_valid hv, hv]

theorem registerIdentity_of_valid (h : verifyAgentSignature sodium record = .valid) :
    registerIdentity sodium (some identity) record = some (identity.verifyAndRegister sodium record).1 := by
  simp [registerIdentity, key_ne_nil_of_valid h]

end BeaconNode.Identity
