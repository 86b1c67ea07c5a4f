import BeaconNode.SyncRounds

namespace BeaconNode.GossipFixedPoint

open Words TextStream OrderedMap Records Crypto Identity Registry LineProtocol SyncClient RecordCodec SyncRounds

/-- A node as it takes part in gossip, from either end of a round. -/
structure Party where
  node : Node
  protocol : ControlProtocol := {}
  maxEntries : UInt64 := 256
  clock : TimePoint := 0

def Party.records (a : Party) : List AgentRecord := a.node.registry.records

def exchange (platform : Platform) (a b : Party) : Exchange :=
  syncWithPeer platform a.maxEntries a.clock a.node b.protocol b.clock b.node

def LeavesUnchanged (platform : Platform) (a b : Party) : Prop :=
  (exchange platform a b).here.registry.records = a.records ∧
    (exchange platform a b).peer.registry.records = b.records

def FixedPoint (platform : Platform) (a b : Party) : Prop :=
  LeavesUnchanged platform a b ∧ LeavesUnchanged platform b a

structure Plain (r : AgentRecord) : Prop where
  wireSafe : WireSafe r
  addressed : Addressed r
  publicKeyHex : r.publicKeyHex = []
  signatureHex : r.signatureHex = []

structure Unsigned (a : Party) : Prop where
  plain : ∀ r ∈ a.records, Plain r
  requireSignatures : a.protocol.trust.requireSignatures = false

variable {platform : Platform} {a b : Party}

theorem submitEffect_keyless (sodium : Option Verifier) {trust : TrustConfig}
    (ht : trust.requireSignatures = false) (node : Node) {r : AgentRecord} (hk : r.publicKeyHex = []) :
    (submitEffect sodium trust node r).registry = (node.registry.upsert r).1 := by
  rw [submitEffect, signatureAllowed_of_keyless _ ht hk, upsert_eq]
  cases admits node.registry.records r with
  | true => rfl
  | false => rfl

theorem pushEntries_keyless (hb : Unsigned b) {entries : List AgentRecord} (he : ∀ r ∈ entries, Plain r) :
    (pushEntries platform b.protocol b.clock b.node entries).1.registry =
      upsertAll b.node.registry (entries.map
        (fun r => r.restamp (b.clock + milliseconds b.protocol.lifecycle.heartbeatTtl))) := by
  rw [pushEntries_node _ _ _ _ _ (fun r hr => ⟨(he r hr).wireSafe, (he r hr).addressed⟩)]
  generalize b.node = node
  induction entries generalizing node with
  | nil => rfl
  | cons r rs ih =>
      rw [List.foldl_cons, ih (fun s hs => he s (by simp [hs])),
        submitEffect_keyless _ hb.requireSignatures _
          ((restamp_publicKeyHex r _).trans (he r (by simp)).publicKeyHex)]
      rfl

theorem Unsigned.wireSafe (hb : Unsigned b) : ∀ r ∈ b.node.registry.records, WireSafe r :=
  fun r hr => (hb.plain r hr).wireSafe

theorem Unsigned.plain_newer (hb : Unsigned b) {maxEntries : UInt64} {here : Node} :
    ∀ r ∈ newerEntries platform maxEntries here b.node, Plain r :=
  fun r hr => hb.plain r (mem_newerEntries hr).1

theorem Unsigned.restamped_keyless (hb : Unsigned b) {maxEntries : UInt64} {here : Node} (expiresAt : TimePoint) :
    ∀ r ∈ (newerEntries platform maxEntries here b.node).map (fun r => r.restamp expiresAt),
      r.publicKeyHex = [] := by
  intro r hr
  obtain ⟨s, hs, rfl⟩ := List.mem_map.mp hr
  exact (hb.plain_newer s hs).publicKeyHex

theorem exchange_here (hb : Unsigned b) :
    (exchange platform a b).here.registry =
      upsertAll a.node.registry ((newerEntries platform a.maxEntries a.node b.node).map
        (fun r => r.restamp (a.clock + minutes 1))) := by
  rw [exchange, syncWithPeer_here b.clock hb.wireSafe, merge_keyless _ _ (hb.restamped_keyless _)]

theorem exchange_peer (ha : Unsigned a) (hb : Unsigned b) :
    (exchange platform a b).peer.registry =
      upsertAll b.node.registry ((newerEntries platform a.maxEntries b.node a.node).map
        (fun r => r.restamp (b.clock + milliseconds b.protocol.lifecycle.heartbeatTtl))) := by
  rw [exchange, syncWithPeer_peer b.clock hb.wireSafe,
    pushEntries_keyless hb ha.plain_newer]

theorem highest_le_of_here_unchanged (hb : Unsigned b)
    (h : (exchange platform a b).here.registry.records = a.records) :
    highestRevision b.records ≤ highestRevision a.records := by
  by_contra hlt
  obtain ⟨r, hr⟩ := exists_mem_entriesAfterRevision platform.revisionSort a.maxEntries (not_le.mp hlt)
  obtain ⟨hmem, hnew⟩ := mem_entriesAfterRevision hr
  have hc : Covers (exchange platform a b).here.registry.records (r.restamp (a.clock + minutes 1)) := by
    rw [exchange_here hb]
    apply upsertAll_covers
    · exact hb.restamped_keyless _
    · exact List.mem_map_of_mem hr
  rw [h] at hc
  exact absurd hc.le_highestRevision (not_le.mpr hnew)

theorem highest_le_of_peer_unchanged (ha : Unsigned a) (hb : Unsigned b)
    (h : (exchange platform a b).peer.registry.records = b.records) :
    highestRevision a.records ≤ highestRevision b.records := by
  by_contra hlt
  obtain ⟨r, hr⟩ := exists_mem_entriesAfterRevision platform.revisionSort a.maxEntries (not_le.mp hlt)
  have hc : Covers (exchange platform a b).peer.registry.records
      (r.restamp (b.clock + milliseconds b.protocol.lifecycle.heartbeatTtl)) := by
    rw [exchange_peer ha hb]
    apply upsertAll_covers
    · exact ha.restamped_keyless _
    · exact List.mem_map_of_mem hr
  rw [h] at hc
  exact absurd hc.le_highestRevision (not_le.mpr (mem_entriesAfterRevision hr).2)

theorem unchanged_of_highest_eq (ha : Unsigned a) (hb : Unsigned b)
    (h : highestRevision a.records = highestRevision b.records) : LeavesUnchanged platform a b := by
  have hpull : newerEntries platform a.maxEntries a.node b.node = [] := entriesAfterRevision_eq_nil.mpr h.ge
  have hpush : newerEntries platform a.maxEntries b.node a.node = [] := entriesAfterRevision_eq_nil.mpr h.le
  constructor
  · rw [exchange_here hb, hpull]
    rfl
  · rw [exchange_peer ha hb, hpush]
    rfl

/-- Two nodes have nothing left to exchange exactly when their highest
revisions agree, whatever lies below them. -/
theorem fixedPoint_iff_highestRevision_eq (platform : Platform) (a b : Party) (ha : Unsigned a) (hb : Unsigned b) :
    FixedPoint platform a b ↔ highestRevision a.records = highestRevision b.records := by
  constructor
  · rintro ⟨hab, -⟩
    apply le_antisymm
    · exact highest_le_of_peer_unchanged ha hb hab.2
    · exact highest_le_of_here_unchanged hb hab.1
  · intro h
    exact ⟨unchanged_of_highest_eq ha hb h, unchanged_of_highest_eq hb ha h.symm⟩

def plainRecord (agentId : String) (revision : UInt64) : AgentRecord :=
  { agentId := ascii agentId, nodeId := ascii "node-1", endpoint := ascii "127.0.0.1:9000"
    revision := revision, expiresAt := 0 }

def partyOf (records : List AgentRecord) : Party := { node := { registry := { records := records } } }

theorem plainRecord_plain (agentId : String) (revision : UInt64) (hne : ascii agentId ≠ [])
    (hs : SpaceFree (ascii agentId)) : Plain (plainRecord agentId revision) := by
  refine ⟨⟨hne, hs, ?_, ?_, ?_, ?_, ?_⟩, ?_, rfl, rfl⟩
  · exact (by decide : SpaceFree (ascii "node-1"))
  · exact (by decide : SpaceFree (ascii "127.0.0.1:9000"))
  · exact (by decide : SpaceFree [])
  · exact (by decide : SpaceFree [])
  · exact fun p hp => absurd hp List.not_mem_nil
  · exact ⟨List.cons_ne_nil _ _, List.cons_ne_nil _ _⟩

def ahead : Party := partyOf [plainRecord "agent-1" 5, plainRecord "agent-2" 3]
def behind : Party := partyOf [plainRecord "agent-1" 5]

theorem ahead_unsigned : Unsigned ahead := by
  refine ⟨fun r hr => ?_, rfl⟩
  rcases List.mem_cons.mp hr with rfl | hr
  · exact plainRecord_plain _ _ (by decide) (by decide)
  · rw [List.mem_singleton.mp hr]
    exact plainRecord_plain _ _ (by decide) (by decide)

theorem behind_unsigned : Unsigned behind := by
  refine ⟨fun r hr => ?_, rfl⟩
  rw [List.mem_singleton.mp hr]
  exact plainRecord_plain _ _ (by decide) (by decide)

theorem fixedPoint_iff_highestRevision_eq_ahead_behind :
    FixedPoint ⟨none, insertionRevisionSort⟩ ahead behind ↔
      highestRevision ahead.records = highestRevision behind.records :=
  fixedPoint_iff_highestRevision_eq _ _ _ ahead_unsigned behind_unsigned

/-- The node behind never learns of the second agent: its revision is below
the highest one that both nodes hold. -/
theorem fixedPoint_ahead_behind_not_sameRevisions :
    (Unsigned ahead ∧ (ahead.records.map AgentRecord.agentId).Nodup ∧ (∀ r ∈ ahead.records, 1 ≤ r.revision) ∧
        ahead.records.length ≤ ahead.maxEntries.toNat) ∧
      (Unsigned behind ∧ (behind.records.map AgentRecord.agentId).Nodup ∧ (∀ r ∈ behind.records, 1 ≤ r.revision) ∧
        behind.records.length ≤ behind.maxEntries.toNat) ∧
      FixedPoint ⟨none, insertionRevisionSort⟩ ahead behind ∧ ¬ SameRevisions ahead.records behind.records := by
  refine ⟨⟨ahead_unsigned, by decide, by decide, by decide⟩, ⟨behind_unsigned, by decide, by decide, by decide⟩,
    ⟨unchanged_of_highest_eq ahead_unsigned behind_unsigned (by decide),
      unchanged_of_highest_eq behind_unsigned ahead_unsigned (by decide)⟩, ?_⟩
  intro h
  exact absurd (h (ascii "agent-2")) (by decide)

end BeaconNode.GossipFixedPoint
