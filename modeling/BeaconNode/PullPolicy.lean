import BeaconNode.SyncClient
import BeaconNode.Runs

namespace BeaconNode.PullPolicy

open Words TextStream Records Crypto Identity Registry LineProtocol SyncClient Runs

def Unsigned (r : AgentRecord) : Prop := r.publicKeyHex = [] ∨ r.signatureHex = []

def mergeTurn (sodium : Option Verifier) (node : Node) (r : AgentRecord) : Node := (mergeRecord sodium node r).1

def Attached (node : Node) : Prop := ∃ identity, node.identity = some identity

variable {sodium : Option Verifier} {node : Node} {r : AgentRecord}

theorem mergeTurn_attached (sodium : Option Verifier) (node : Node) (r : AgentRecord) (h : Attached node) :
    Attached (mergeTurn sodium node r) := by
  obtain ⟨identity, hi⟩ := h
  refine ⟨(identity.verifyAndRegister sodium r).1, ?_⟩
  rw [mergeTurn, mergeRecord_identity, hi, Option.map_some]

theorem accepted_valid_iff (h : Attached node) :
    ((mergeRecord sodium node r).2 = true → verifyAgentSignature sodium r = .valid) ↔
      ¬ (Unsigned r ∧ admits node.registry.records r = true) := by
  obtain ⟨identity, hi⟩ := h
  have hm : (identity.verifyAndRegister sodium r).2 = .missing ↔ Unsigned r :=
    verifyAndRegister_status_missing.trans verifyAgentSignature_missing
  simp only [mergeRecord_accepted, hi, Option.some.injEq, forall_eq']
  constructor
  · rintro hv ⟨hu, ha⟩
    have hmiss : verifyAgentSignature sodium r = .missing := verifyAgentSignature_missing.mpr hu
    rw [hv ⟨Or.inr (hm.mpr hu), ha⟩] at hmiss
    cases hmiss
  · rintro hn ⟨hs | hs, ha⟩
    · exact valid_of_verifyAndRegister hs
    · exact absurd ⟨hm.mp hs, ha⟩ hn

/-- Every record that a response adds or replaces is validly signed exactly
when upsert admits none of its unsigned records at their turn. -/
theorem accepted_valid_iff_no_unsigned_admitted (sodium : Option Verifier) (now : TimePoint)
    (registry : AgentRegistry) (identity : IdentityService) (response : Bytes) :
    Along (mergeTurn sodium)
        (fun node r => (mergeRecord sodium node r).2 = true → verifyAgentSignature sodium r = .valid)
        ⟨registry, some identity⟩ (parseAgentLines now response) ↔
      Along (mergeTurn sodium) (fun node r => ¬ (Unsigned r ∧ admits node.registry.records r = true))
        ⟨registry, some identity⟩ (parseAgentLines now response) := by
  apply along_congr (I := Attached)
  · exact ⟨identity, rfl⟩
  · intro node r h
    exact mergeTurn_attached sodium node r h
  · intro node r h
    exact accepted_valid_iff h

def unsignedResponse : Bytes :=
  ascii "OK message=sync_pull\nAGENT agent_id=agent-1 node_id=node-1 endpoint=127.0.0.1:9000 revision=1\nEND\n"

def unsignedRecord : AgentRecord :=
  { agentId := ascii "agent-1", nodeId := ascii "node-1", endpoint := ascii "127.0.0.1:9000", revision := 1
    expiresAt := minutes 1 }

def trustingSodium : Option Verifier := some (fun _ _ _ => true)

/-- The pull path takes a record without a signature from any peer, whatever
the verifier would say about one. -/
theorem unsignedResponse_accepted_not_valid :
    (mergeResponse trustingSodium 0 ⟨{}, some {}⟩ unsignedResponse).1.registry.records = [unsignedRecord] ∧
      ¬ Along (mergeTurn trustingSodium)
        (fun node r => (mergeRecord trustingSodium node r).2 = true →
          verifyAgentSignature trustingSodium r = .valid)
        ⟨{}, some {}⟩ (parseAgentLines 0 unsignedResponse) := by
  have hp : parseAgentLines 0 unsignedResponse = [unsignedRecord] := by decide +kernel
  rw [mergeResponse, hp]
  refine ⟨rfl, fun h => ?_⟩
  obtain ⟨hr, -⟩ := along_cons.mp h
  exact absurd (hr rfl) (by decide)

end BeaconNode.PullPolicy
