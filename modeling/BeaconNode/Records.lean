import BeaconNode.OrderedMap
import BeaconNode.TextStream

namespace BeaconNode.Records

open Words OrderedMap

/-- Readings of the steady clock, in nanoseconds. -/
abbrev TimePoint := Int

def milliseconds (n : Int) : Int := n * 1000000
def minutes (n : Int) : Int := milliseconds (n * 60000)
def hours (n : Int) : Int := minutes (n * 60)

/-- Strings are their bytes, and std::map on strings iterates in the order
of unsigned bytes. -/
abbrev Metadata := SortedMap Bytes Bytes

structure AgentRecord where
  agentId : Bytes := []
  nodeId : Bytes := []
  endpoint : Bytes := []
  metadata : Metadata := .empty
  revision : UInt64 := 0
  expiresAt : TimePoint
  publicKeyHex : Bytes := []
  signatureHex : Bytes := []
  deriving DecidableEq

structure RegistryStats where
  activeAgents : Nat
  highestRevision : UInt64
  deriving DecidableEq

structure LifecycleConfig where
  heartbeatTtl : Int := 30000

structure TrustConfig where
  requireSignatures : Bool := false

/-- What libstdc++ leaves in a record that has been moved from: the strings
and the map are emptied, the scalars keep their values. -/
def AgentRecord.movedFrom (record : AgentRecord) : AgentRecord :=
  { revision := record.revision, expiresAt := record.expiresAt }

def AgentRecord.restamp (record : AgentRecord) (expiresAt : TimePoint) : AgentRecord :=
  { record with expiresAt := expiresAt }

@[simp] theorem restamp_agentId (r : AgentRecord) (t : TimePoint) : (r.restamp t).agentId = r.agentId := rfl
@[simp] theorem restamp_nodeId (r : AgentRecord) (t : TimePoint) : (r.restamp t).nodeId = r.nodeId := rfl
@[simp] theorem restamp_endpoint (r : AgentRecord) (t : TimePoint) : (r.restamp t).endpoint = r.endpoint := rfl
@[simp] theorem restamp_revision (r : AgentRecord) (t : TimePoint) : (r.restamp t).revision = r.revision := rfl
@[simp] theorem restamp_publicKeyHex (r : AgentRecord) (t : TimePoint) :
    (r.restamp t).publicKeyHex = r.publicKeyHex := rfl

/-- Equal in every field except the expiry. -/
def SameButExpiry (r s : AgentRecord) : Prop := r.restamp s.expiresAt = s

instance (r s : AgentRecord) : Decidable (SameButExpiry r s) :=
  inferInstanceAs (Decidable (r.restamp s.expiresAt = s))

theorem SameButExpiry.refl (r : AgentRecord) : SameButExpiry r r := rfl

theorem SameButExpiry.symm {r s : AgentRecord} (h : SameButExpiry r s) : SameButExpiry s r := by
  rw [SameButExpiry] at h ⊢
  rw [← h]
  rfl

theorem SameButExpiry.trans {r s t : AgentRecord} (h : SameButExpiry r s) (k : SameButExpiry s t) :
    SameButExpiry r t := by
  rw [SameButExpiry] at h k ⊢
  rw [← k, ← h]
  rfl

theorem sameButExpiry_restamp (r : AgentRecord) (t : TimePoint) : SameButExpiry (r.restamp t) r := rfl

theorem SameButExpiry.agentId {r s : AgentRecord} (h : SameButExpiry r s) : r.agentId = s.agentId := by
  rw [← h, restamp_agentId]

theorem SameButExpiry.revision {r s : AgentRecord} (h : SameButExpiry r s) : r.revision = s.revision := by
  rw [← h, restamp_revision]

end BeaconNode.Records
