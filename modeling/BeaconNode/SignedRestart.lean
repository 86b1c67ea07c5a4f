import BeaconNode.EngineRestart

namespace BeaconNode.SignedRestart

open Words TextStream OrderedMap Records Crypto Persistence WalReplay EntryWire EngineRestart

def restored (codec : EntryCodec) (log : List AgentRecord) : Except RecoverError (List AgentRecord) := do
  let service := log.foldl (fun service record => appendEntry codec service (toEntry record)) (start {})
  let recovered ← recover codec (start service.disk).disk
  pure (recovered.map fromEntry)

/-- Between what the rest of the log gives, the restart brings back one record
in the place of this one, and its signature is valid. -/
def RestoredValid (codec : EntryCodec) (verify : Verifier) (before : List AgentRecord) (record : AgentRecord)
    (after : List AgentRecord) : Prop :=
  ∃ earlier back later, restored codec before = .ok earlier ∧ restored codec after = .ok later ∧
    restored codec (before ++ record :: after) = .ok (earlier ++ back :: later) ∧
      verifyAgentSignature (some verify) back = .valid

variable {codec : EntryCodec} {verify : Verifier} {log before after : List AgentRecord} {record : AgentRecord}

theorem restored_eq (h : ∀ r ∈ log, Fits codec (toEntry r)) :
    restored codec log = .ok ((replayed log).map (fun r => fromEntry (toEntry r))) := by
  have hopen : (start {}).disk.wal = some [] := rfl
  obtain ⟨-, hs, hw⟩ := foldl_appendEntry codec log (rfl : (start {}).walFile = true) hopen
  rw [List.nil_append] at hw
  rw [restored, recover_log hs hw h]
  exact congrArg Except.ok List.map_map

theorem replayed_insert (before after : List AgentRecord) (record : AgentRecord) :
    replayed (before ++ record :: after) =
      replayed before ++ (if 0 < record.revision then [record] else []) ++ replayed after := by
  by_cases h : 0 < record.revision
  · simp [replayed, h]
  · simp [replayed, h]

theorem payload_fromEntry (record : AgentRecord) :
    canonicalAgentPayload record = canonicalAgentPayload (fromEntry (toEntry record)) ++
      record.metadata.entries.flatMap (fun p => ascii "metadata." ++ p.1 ++ ascii "=" ++ p.2 ++ ascii "\n") := by
  have hempty : (fromEntry (toEntry record)).metadata.entries = [] := rfl
  rw [canonicalAgentPayload, canonicalAgentPayload, hempty, List.flatMap_nil, List.append_nil]
  rfl

theorem payload_fromEntry_eq_iff :
    canonicalAgentPayload (fromEntry (toEntry record)) = canonicalAgentPayload record ↔
      record.metadata = .empty := by
  rw [payload_fromEntry record, List.self_eq_append_right, List.flatMap_eq_nil_iff]
  constructor
  · intro h
    apply SortedMap.ext
    rw [SortedMap.empty, List.eq_nil_iff_forall_not_mem]
    intro p hp
    simpa [ascii] using h p hp
  · intro h p hp
    rw [h] at hp
    exact absurd hp List.not_mem_nil

/-- The keys come back with the same bytes, whatever the case of their digits
was. -/
theorem valid_fromEntry :
    verifyAgentSignature (some verify) (fromEntry (toEntry record)) = .valid ↔
      (decodeHex record.publicKeyHex).length = cryptoSignPublicKeyBytes ∧
        (decodeHex record.signatureHex).length = cryptoSignBytes ∧
          verify (decodeHex record.signatureHex) (canonicalAgentPayload (fromEntry (toEntry record)))
            (decodeHex record.publicKeyHex) = true := by
  have hkey : decodeHex (fromEntry (toEntry record)).publicKeyHex = decodeHex record.publicKeyHex :=
    decodeHex_encodeHex _
  have hsignature : decodeHex (fromEntry (toEntry record)).signatureHex = decodeHex record.signatureHex :=
    decodeHex_encodeHex _
  rw [verifyAgentSignature_valid, hkey, hsignature]

theorem restoredValid_iff (h : ∀ r ∈ before ++ record :: after, Fits codec (toEntry r)) :
    RestoredValid codec verify before record after ↔
      0 < record.revision ∧ verifyAgentSignature (some verify) (fromEntry (toEntry record)) = .valid := by
  have hbefore : ∀ r ∈ before, Fits codec (toEntry r) := fun r hr => h r (by simp [hr])
  have hafter : ∀ r ∈ after, Fits codec (toEntry r) := fun r hr => h r (by simp [hr])
  rw [RestoredValid, restored_eq hbefore, restored_eq hafter, restored_eq h, replayed_insert]
  by_cases hpos : 0 < record.revision
  · rw [if_pos hpos, List.append_assoc, List.map_append, List.singleton_append, List.map_cons]
    constructor
    · rintro ⟨earlier, back, later, he, hl, hb, hv⟩
      rw [Except.ok.inj he, Except.ok.inj hl] at hb
      obtain rfl := (List.cons.inj (List.append_cancel_left (Except.ok.inj hb))).1
      exact ⟨hpos, hv⟩
    · rintro ⟨-, hv⟩
      exact ⟨_, _, _, rfl, rfl, rfl, hv⟩
  · rw [if_neg hpos, List.append_nil, List.map_append]
    constructor
    · rintro ⟨earlier, back, later, he, hl, hb, -⟩
      rw [Except.ok.inj he, Except.ok.inj hl] at hb
      have hlength := congrArg List.length (List.append_cancel_left (Except.ok.inj hb))
      rw [List.length_cons] at hlength
      omega
    · rintro ⟨hp, -⟩
      exact absurd hp hpos

/-- A validly signed record stays valid over a restart, whichever scheme
verifies it, exactly when it was signed with no metadata and its revision is
not 0. -/
theorem restoredValid_iff_without_metadata (codec : EntryCodec) (before after : List AgentRecord)
    (record : AgentRecord) (hf : ∀ r ∈ before ++ record :: after, Fits codec (toEntry r))
    (hv : ∃ verify, verifyAgentSignature (some verify) record = .valid) :
    (∀ verify, verifyAgentSignature (some verify) record = .valid →
        RestoredValid codec verify before record after) ↔
      record.metadata = .empty ∧ 0 < record.revision := by
  obtain ⟨scheme, hscheme⟩ := hv
  obtain ⟨hkey, hsignature, -⟩ := verifyAgentSignature_valid.mp hscheme
  constructor
  · intro h
    -- the scheme that accepts signatures of this record's payload alone
    let exact : Verifier := fun _ message _ => message = canonicalAgentPayload record
    have hown : verifyAgentSignature (some exact) record = .valid :=
      verifyAgentSignature_valid.mpr ⟨hkey, hsignature, decide_eq_true rfl⟩
    obtain ⟨hpos, hback⟩ := (restoredValid_iff hf).mp (h exact hown)
    have hpayload := of_decide_eq_true (valid_fromEntry.mp hback).2.2
    exact ⟨payload_fromEntry_eq_iff.mp hpayload, hpos⟩
  · rintro ⟨hm, hpos⟩ verify hvalid
    refine (restoredValid_iff hf).mpr ⟨hpos, valid_fromEntry.mpr ⟨hkey, hsignature, ?_⟩⟩
    rw [payload_fromEntry_eq_iff.mpr hm]
    exact (verifyAgentSignature_valid.mp hvalid).2.2

def plannerRecord : AgentRecord where
  agentId := ascii "agent-1"
  nodeId := ascii "node-1"
  endpoint := ascii "127.0.0.1:9000"
  metadata := .insert .empty (ascii "role") (ascii "planner")
  revision := 1
  expiresAt := 0
  publicKeyHex := (List.replicate 32 (ascii "07")).flatten
  signatureHex := (List.replicate 64 (ascii "9a")).flatten

def plannerScheme : Verifier := fun signature message key =>
  signature = List.replicate 64 0x9a ∧ message = canonicalAgentPayload plannerRecord ∧ key = List.replicate 32 0x07

theorem plannerRecord_valid : verifyAgentSignature (some plannerScheme) plannerRecord = .valid := by
  decide +kernel

theorem plannerRecord_fits : ∀ r ∈ [] ++ plannerRecord :: [], Fits entryCodec (toEntry r) := by
  intro r hr
  rw [List.nil_append, List.mem_singleton] at hr
  rw [hr]
  exact fits_of_length (by decide +kernel)

theorem restoredValid_iff_plannerRecord :
    (∀ verify, verifyAgentSignature (some verify) plannerRecord = .valid →
        RestoredValid entryCodec verify [] plannerRecord []) ↔
      plannerRecord.metadata = .empty ∧ 0 < plannerRecord.revision :=
  restoredValid_iff_without_metadata entryCodec [] [] plannerRecord plannerRecord_fits
    ⟨plannerScheme, plannerRecord_valid⟩

/-- The record comes back without its role, which the signature covers. -/
theorem plannerRecord_not_restoredValid :
    verifyAgentSignature (some plannerScheme) plannerRecord = .valid ∧
      ¬ RestoredValid entryCodec plannerScheme [] plannerRecord [] := by
  refine ⟨plannerRecord_valid, fun h => ?_⟩
  obtain ⟨-, hback⟩ := (restoredValid_iff plannerRecord_fits).mp h
  exact absurd hback (by decide +kernel)

end BeaconNode.SignedRestart
