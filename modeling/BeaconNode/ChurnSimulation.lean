import BeaconNode.BatchMerge
import BeaconNode.GossipFixedPoint

namespace BeaconNode.ChurnSimulation

open Words Records Registry KeyedList LineProtocol ControlRuns VersionedLog SyncClient SyncRounds
  GossipFixedPoint BatchMerge

/-- An agent of the simulator. Its id is only compared, so its type is left
open. -/
structure SimAgent (κ : Type) where
  agentId : κ
  revision : Int
  ttl : Int

/-- The registry is a dictionary from agent ids, in insertion order. -/
structure SimNode (κ : Type) where
  registry : List (SimAgent κ)
  unique : (registry.map SimAgent.agentId).Nodup

variable {κ : Type}

def highestRevision (node : SimNode κ) : Int := (node.registry.map SimAgent.revision).max?.getD 0

def assign [DecidableEq κ] (node : SimNode κ) (agent : SimAgent κ) : SimNode κ :=
  ⟨put SimAgent.agentId agent node.registry, put_nodup node.unique⟩

def register [DecidableEq κ] (node : SimNode κ) (agent : SimAgent κ) : SimNode κ :=
  match lookup SimAgent.agentId agent.agentId node.registry with
  | none => assign node agent
  | some existing => if existing.revision ≤ agent.revision then assign node agent else node

/-- A slice up to a bound. A negative bound counts from the end. -/
def sliceTo {α : Type} (limit : Int) (l : List α) : List α :=
  if 0 ≤ limit then l.take limit.toNat else l.take (l.length - limit.natAbs)

def sortedByRevision (agents : List (SimAgent κ)) : List (SimAgent κ) :=
  agents.insertionSort (fun s t => s.revision ≤ t.revision)

def delta (source sink : SimNode κ) (limit : Int) : List (SimAgent κ) :=
  sliceTo limit (sortedByRevision (source.registry.filter (fun s => highestRevision sink < s.revision)))

def gossipRound [DecidableEq κ] (left right : SimNode κ) (limit : Int) : SimNode κ × SimNode κ :=
  let leftDelta := delta left right limit
  let rightDelta := delta right left limit
  (rightDelta.foldl register left, leftDelta.foldl register right)

def simRevision (name : κ ↪ Bytes) (node : SimNode κ) (agentId : Bytes) : Option Int :=
  (lookup (fun s => name s.agentId) agentId node.registry).map SimAgent.revision

def recordRevision (record : AgentRecord) : Int := record.revision.toNat

/-- Both hold the same agents at the same revisions. -/
def Mirrors (name : κ ↪ Bytes) (node : SimNode κ) (registry : AgentRegistry) : Prop :=
  ∀ agentId, simRevision name node agentId = (registry.find agentId).map recordRevision

/-- Among the entries above a revision, the limit does not fall between two
of the same revision. -/
def CutsNoGroup (limit after : UInt64) (registry : AgentRegistry) : Prop :=
  let revisions := ((registry.records.filter (fun r => after < r.revision)).map AgentRecord.revision).insertionSort
    (· ≤ ·)
  ∀ v ∈ revisions.take limit.toNat, ∀ w ∈ revisions.drop limit.toNat, v ≠ w

instance (limit after : UInt64) (registry : AgentRegistry) : Decidable (CutsNoGroup limit after registry) :=
  @List.decidableBAll UInt64 _ (fun v => List.decidableBAll (fun w => v ≠ w) _) _

def simPair (name : κ ↪ Bytes) (s : SimAgent κ) : Bytes × Int := (name s.agentId, s.revision)

def recordPair (r : AgentRecord) : Bytes × Int := (r.agentId, recordRevision r)

variable {name : κ ↪ Bytes} {node : SimNode κ} {registry : AgentRegistry}

theorem recordRevision_lt {r s : AgentRecord} : r.revision < s.revision ↔ recordRevision r < recordRevision s := by
  rw [UInt64.lt_iff_toNat_lt, recordRevision, recordRevision]
  omega

theorem recordRevision_nonneg (r : AgentRecord) : 0 ≤ recordRevision r := Int.natCast_nonneg _

theorem SimNode.names_nodup (name : κ ↪ Bytes) (node : SimNode κ) :
    (node.registry.map (fun s => name s.agentId)).Nodup := by
  have hnames := node.unique.map name.injective
  rwa [List.map_map] at hnames

theorem Mirrors.mem_pairs (h : Mirrors name node registry) (hu : OneRecordPerAgent registry.records)
    (p : Bytes × Int) : p ∈ node.registry.map (simPair name) ↔ p ∈ registry.records.map recordPair := by
  obtain ⟨a, v⟩ := p
  have hsim := lookup_map_eq_some (k := a) (v := v) (node.names_nodup name) SimAgent.revision
  have hrecord := lookup_map_eq_some (k := a) (v := v) hu recordRevision
  rw [← simRevision, h a] at hsim
  exact hsim.symm.trans hrecord

theorem Mirrors.record_of_mem (h : Mirrors name node registry) (hu : OneRecordPerAgent registry.records)
    {s : SimAgent κ} (hs : s ∈ node.registry) :
    ∃ r ∈ registry.records, r.agentId = name s.agentId ∧ recordRevision r = s.revision := by
  obtain ⟨r, hr, hp⟩ := List.mem_map.mp ((h.mem_pairs hu _).mp (List.mem_map_of_mem hs))
  exact ⟨r, hr, Prod.mk.inj hp⟩

theorem Mirrors.agent_of_mem (h : Mirrors name node registry) (hu : OneRecordPerAgent registry.records)
    {r : AgentRecord} (hr : r ∈ registry.records) :
    ∃ s ∈ node.registry, name s.agentId = r.agentId ∧ s.revision = recordRevision r := by
  obtain ⟨s, hs, hp⟩ := List.mem_map.mp ((h.mem_pairs hu _).mpr (List.mem_map_of_mem hr))
  exact ⟨s, hs, Prod.mk.inj hp⟩

theorem le_simHighest {s : SimAgent κ} (h : s ∈ node.registry) : s.revision ≤ highestRevision node := by
  have hmem : s.revision ∈ node.registry.map SimAgent.revision := List.mem_map_of_mem h
  cases hm : (node.registry.map SimAgent.revision).max? with
  | none =>
      rw [List.max?_eq_none_iff.mp hm] at hmem
      exact absurd hmem List.not_mem_nil
  | some m =>
      rw [highestRevision, hm, Option.getD_some]
      exact (List.max?_eq_some_iff.mp hm).2 _ hmem

theorem simHighest_mem (node : SimNode κ) :
    (node.registry = [] ∧ highestRevision node = 0) ∨ ∃ s ∈ node.registry, s.revision = highestRevision node := by
  cases hm : (node.registry.map SimAgent.revision).max? with
  | none =>
      have hnil := List.map_eq_nil_iff.mp (List.max?_eq_none_iff.mp hm)
      exact Or.inl ⟨hnil, by rw [highestRevision, hm]; rfl⟩
  | some m =>
      obtain ⟨s, hs, he⟩ := List.mem_map.mp (List.max?_eq_some_iff.mp hm).1
      exact Or.inr ⟨s, hs, by rw [highestRevision, hm, he]; rfl⟩

theorem Mirrors.highestRevision_eq (h : Mirrors name node registry) (hu : OneRecordPerAgent registry.records) :
    highestRevision node = (Registry.highestRevision registry.records).toNat := by
  apply le_antisymm
  · rcases simHighest_mem node with ⟨-, hz⟩ | ⟨s, hs, he⟩
    · rw [hz]
      exact Int.natCast_nonneg _
    · obtain ⟨r, hr, -, hrev⟩ := h.record_of_mem hu hs
      rw [← he, ← hrev, recordRevision]
      exact Int.ofNat_le.mpr (UInt64.le_iff_toNat_le.mp (le_highestRevision hr))
  · rcases highestRevision_mem registry.records with hz | ⟨r, hr, he⟩
    · -- no revision of a mirrored registry is negative
      rw [hz]
      rcases simHighest_mem node with ⟨-, hz⟩ | ⟨s, hs, he⟩
      · exact hz.ge
      · obtain ⟨r, -, -, hrev⟩ := h.record_of_mem hu hs
        rw [← he, ← hrev]
        exact recordRevision_nonneg r
    · obtain ⟨s, hs, -, hrev⟩ := h.agent_of_mem hu hr
      rw [← he, ← recordRevision, ← hrev]
      exact le_simHighest hs

theorem Mirrors.selected_perm {sink : SimNode κ} {other : AgentRegistry} (h : Mirrors name node registry)
    (hu : OneRecordPerAgent registry.records) (ho : Mirrors name sink other)
    (hou : OneRecordPerAgent other.records) :
    ((registry.records.filter (fun r => Registry.highestRevision other.records < r.revision)).map recordPair).Perm
      ((node.registry.filter (fun s => highestRevision sink < s.revision)).map (simPair name)) := by
  have hrecords : ((registry.records.filter
      (fun r => Registry.highestRevision other.records < r.revision)).map recordPair).Nodup := by
    apply List.Nodup.of_map Prod.fst
    rw [List.map_map]
    exact hu.sublist (List.filter_sublist.map _)
  have hagents : ((node.registry.filter (fun s => highestRevision sink < s.revision)).map (simPair name)).Nodup := by
    apply List.Nodup.of_map Prod.fst
    rw [List.map_map]
    exact (node.names_nodup name).sublist (List.filter_sublist.map _)
  rw [List.perm_ext_iff_of_nodup hrecords hagents]
  have habove (r : AgentRecord) :
      Registry.highestRevision other.records < r.revision ↔ highestRevision sink < recordRevision r := by
    rw [ho.highestRevision_eq hou, recordRevision, UInt64.lt_iff_toNat_lt]
    omega
  intro p
  simp only [List.mem_map, List.mem_filter, decide_eq_true_eq]
  constructor
  · rintro ⟨r, ⟨hr, hnew⟩, rfl⟩
    obtain ⟨s, hs, hid, hrev⟩ := h.agent_of_mem hu hr
    refine ⟨s, ⟨hs, ?_⟩, Prod.ext hid hrev⟩
    rw [hrev]
    exact (habove r).mp hnew
  · rintro ⟨s, ⟨hs, hnew⟩, rfl⟩
    obtain ⟨r, hr, hid, hrev⟩ := h.record_of_mem hu hs
    refine ⟨r, ⟨hr, ?_⟩, Prod.ext hid hrev⟩
    rw [habove, hrev]
    exact hnew

theorem sortedByRevision_pairwise (agents : List (SimAgent κ)) :
    (sortedByRevision agents).Pairwise (fun s t => s.revision ≤ t.revision) := by
  have : Std.Total (fun s t : SimAgent κ => s.revision ≤ t.revision) := ⟨fun _ _ => le_total _ _⟩
  have : IsTrans (SimAgent κ) (fun s t => s.revision ≤ t.revision) := ⟨fun _ _ _ => le_trans⟩
  exact List.pairwise_insertionSort _ agents

/-- The condition speaks of the revisions alone, so it holds of them as any
sort arranges the entries. -/
theorem CutsNoGroup.of_sort {limit after : UInt64} (h : CutsNoGroup limit after registry) (S : RevisionSort) :
    ∀ v ∈ ((S.sort (registry.records.filter (fun r => after < r.revision))).map AgentRecord.revision).take limit.toNat,
      ∀ w ∈ ((S.sort (registry.records.filter (fun r => after < r.revision))).map AgentRecord.revision).drop
        limit.toNat,
        v ≠ w := by
  have hsame : (S.sort (registry.records.filter (fun r => after < r.revision))).map AgentRecord.revision =
      ((registry.records.filter (fun r => after < r.revision)).map AgentRecord.revision).insertionSort (· ≤ ·) := by
    have hperm := ((S.perm (registry.records.filter (fun r => after < r.revision))).map AgentRecord.revision).trans
      (List.perm_insertionSort (· ≤ ·) _).symm
    exact hperm.eq_of_pairwise (fun _ _ _ _ => le_antisymm) (List.pairwise_map.mpr (S.sorted _))
      (List.pairwise_insertionSort _ _)
  rw [hsame]
  exact h

theorem entriesAfterRevision_eq_take {S : RevisionSort} {revision limit : UInt64} (h : 1 ≤ limit) :
    registry.entriesAfterRevision S revision limit =
      (S.sort (registry.records.filter (fun r => revision < r.revision))).take limit.toNat := by
  have hpos : 0 < limit := lt_of_lt_of_le (by decide) h
  simp only [AgentRegistry.entriesAfterRevision, hpos, true_and]
  split
  · rfl
  next hle => rw [List.take_of_length_le (not_lt.mp hle)]

theorem Mirrors.mem_delta {sink : SimNode κ} {here peer : Node} {platform : Platform} {limit : UInt64}
    (h : Mirrors name node peer.registry) (hu : OneRecordPerAgent peer.registry.records)
    (ho : Mirrors name sink here.registry) (hou : OneRecordPerAgent here.registry.records) (hl : 1 ≤ limit)
    (hc : CutsNoGroup limit (Registry.highestRevision here.registry.records) peer.registry) (p : Bytes × Int) :
    p ∈ (newerEntries platform limit here peer).map recordPair ↔
      p ∈ (delta node sink limit.toNat).map (simPair name) := by
  have hslice : delta node sink limit.toNat = (sortedByRevision
      (node.registry.filter (fun s => highestRevision sink < s.revision))).take limit.toNat := by
    rw [delta, sliceTo, if_pos (Int.natCast_nonneg _), Int.toNat_natCast]
  rw [newerEntries, entriesAfterRevision_eq_take hl, hslice, List.map_take, List.map_take]
  apply mem_take_of_sorted Prod.snd
  · exact ((platform.revisionSort.perm _).map _).trans ((h.selected_perm hu ho hou).trans
      ((List.perm_insertionSort _ _).map _).symm)
  · rw [List.pairwise_map]
    exact (platform.revisionSort.sorted _).imp fun hle => Int.ofNat_le.mpr (UInt64.le_iff_toNat_le.mp hle)
  · rw [List.pairwise_map]
    exact sortedByRevision_pairwise _
  · have hrevisions (l : List AgentRecord) : (l.map recordPair).map Prod.snd =
        (l.map AgentRecord.revision).map (fun v => (v.toNat : Int)) := by
      rw [List.map_map, List.map_map]
      rfl
    rw [hrevisions, ← List.map_take, ← List.map_drop]
    rintro v hv w hw rfl
    obtain ⟨x, hx, hxv⟩ := List.mem_map.mp hv
    obtain ⟨y, hy, hyv⟩ := List.mem_map.mp hw
    refine hc.of_sort platform.revisionSort x hx y hy (UInt64.toNat_inj.mp ?_)
    exact Int.ofNat_inj.mp (hxv.trans hyv.symm)

section Rounds

variable [DecidableEq κ]

theorem lookup_register (node : SimNode κ) (agent : SimAgent κ) (a : Bytes) :
    lookup (fun s => name s.agentId) a (register node agent).registry =
      if name agent.agentId = a then
        newer SimAgent.revision (lookup (fun s => name s.agentId) a node.registry) agent
      else lookup (fun s => name s.agentId) a node.registry := by
  have hassign : lookup (fun s => name s.agentId) a (assign node agent).registry =
      if a = name agent.agentId then some agent else lookup (fun s => name s.agentId) a node.registry := by
    have hput : (assign node agent).registry = put (fun s => name s.agentId) agent node.registry :=
      (put_comp name.injective agent node.registry).symm
    rw [hput]
    exact lookup_put agent a node.registry
  have hheld : lookup (fun s => name s.agentId) (name agent.agentId) node.registry =
      lookup SimAgent.agentId agent.agentId node.registry :=
    lookup_comp name.injective agent.agentId node.registry
  by_cases ha : name agent.agentId = a
  · subst ha
    rw [if_pos rfl, hheld]
    simp only [if_true] at hassign
    cases hl : lookup SimAgent.agentId agent.agentId node.registry with
    | none =>
        rw [register, hl]
        exact hassign
    | some existing =>
        rw [register, hl]
        by_cases hle : existing.revision ≤ agent.revision
        · simp only [hle, if_true, hassign, newer, not_lt.mpr hle, if_false]
        · simp only [hle, if_false, newer, not_le.mp hle, if_true, hheld, hl]
  · rw [if_neg ha]
    rw [if_neg fun he => ha he.symm] at hassign
    rw [register]
    split
    · exact hassign
    · split
      · exact hassign
      · rfl

theorem simRevision_registers (node : SimNode κ) (agents : List (SimAgent κ)) (a : Bytes) :
    simRevision name (agents.foldl register node) a =
      lastOfMaximum id ((simRevision name node a).toList ++
        (agents.filter (fun s => name s.agentId = a)).map SimAgent.revision) := by
  have hview := view_foldl_newer register (fun a (node : SimNode κ) => lookup (fun s => name s.agentId) a node.registry)
    (fun node agent a => lookup_register node agent a) agents a node
  rw [simRevision, hview, map_lastOfMaximum (fun _ _ => Iff.rfl), List.map_append, simRevision, Option.toList_map]

theorem find_upsertAll_keyless {records : List AgentRecord} (hr : ∀ r ∈ registry.records, r.publicKeyHex = [])
    (hk : ∀ r ∈ records, r.publicKeyHex = []) (a : Bytes) :
    ((upsertAll registry records).find a).map recordRevision =
      lastOfMaximum id (((registry.find a).map recordRevision).toList ++
        (records.filter (fun r => r.agentId = a)).map recordRevision) := by
  have hagree : KeysAgree (heard a registry records) := by
    intro r hm s _ hne
    have hkeyless : r.publicKeyHex = [] := by
      simp only [heard, List.mem_append, Option.mem_toList, List.mem_filter] at hm
      rcases hm with hm | ⟨hm, -⟩
      · exact hr r (lookup_mem hm)
      · exact hk r hm
    exact absurd hkeyless hne
  rw [find_upsertAll hagree, map_lastOfMaximum (fun _ _ => recordRevision_lt), heard, List.map_append,
    Option.toList_map]

theorem Mirrors.receive {agents : List (SimAgent κ)} {records : List AgentRecord} (h : Mirrors name node registry)
    (hr : ∀ r ∈ registry.records, r.publicKeyHex = []) (hk : ∀ r ∈ records, r.publicKeyHex = [])
    (hp : ∀ p, p ∈ records.map recordPair ↔ p ∈ agents.map (simPair name)) :
    Mirrors name (agents.foldl register node) (upsertAll registry records) := by
  intro a
  have hmem (v : Int) : v ∈ (agents.filter (fun s => name s.agentId = a)).map SimAgent.revision ↔
      v ∈ (records.filter (fun r => r.agentId = a)).map recordRevision := by
    have hpair := hp (a, v)
    simp only [List.mem_map, recordPair, simPair, Prod.mk.injEq] at hpair
    simp only [List.mem_map, List.mem_filter, decide_eq_true_eq, and_assoc]
    exact hpair.symm
  rw [simRevision_registers, find_upsertAll_keyless hr hk, h a]
  apply lastOfMaximum_congr
  · intro v _ w _ hvw
    exact hvw
  · intro v
    rw [List.mem_append, List.mem_append, hmem]

/-- One round of the simulator leaves both nodes with the agents and revisions
that one round of the engine leaves, as long as the limit does not divide a
group of equal revisions. -/
theorem gossipRound_mirrors_exchange (platform : Platform) (name : κ ↪ Bytes) (left right : SimNode κ) (a b : Party)
    (ha : Unsigned a) (hb : Unsigned b) (hua : OneRecordPerAgent a.records) (hub : OneRecordPerAgent b.records)
    (hl : 1 ≤ a.maxEntries)
    (hpull : CutsNoGroup a.maxEntries (Registry.highestRevision a.records) b.node.registry)
    (hpush : CutsNoGroup a.maxEntries (Registry.highestRevision b.records) a.node.registry)
    (hleft : Mirrors name left a.node.registry) (hright : Mirrors name right b.node.registry) :
    Mirrors name (gossipRound left right a.maxEntries.toNat).1 (exchange platform a b).here.registry ∧
      Mirrors name (gossipRound left right a.maxEntries.toNat).2 (exchange platform a b).peer.registry := by
  have hrestamp (l : List AgentRecord) (t : TimePoint) :
      (l.map (fun r => r.restamp t)).map recordPair = l.map recordPair := by
    rw [List.map_map]
    rfl
  rw [exchange_here hb, exchange_peer ha hb]
  constructor
  · apply hleft.receive (fun r hr => (ha.plain r hr).publicKeyHex) (hb.restamped_keyless _)
    intro p
    rw [hrestamp]
    exact hright.mem_delta hub hleft hua hl hpull p
  · apply hright.receive (fun r hr => (hb.plain r hr).publicKeyHex) (ha.restamped_keyless _)
    intro p
    rw [hrestamp]
    exact hleft.mem_delta hua hright hub hl hpush p

end Rounds

def mirrorOf (registry : AgentRegistry) (hu : OneRecordPerAgent registry.records) (ttl : Int) : SimNode Bytes where
  registry := registry.records.map (fun r => ⟨r.agentId, recordRevision r, ttl⟩)
  unique := by rwa [List.map_map]

theorem mirrorOf_mirrors (registry : AgentRegistry) (hu : OneRecordPerAgent registry.records) (ttl : Int) :
    Mirrors (.refl Bytes) (mirrorOf registry hu ttl) registry := by
  intro a
  simp only [simRevision, mirrorOf, lookup, AgentRegistry.find, findRecord, List.find?_map, Option.map_map]
  rfl

def richer : Party :=
  { partyOf [plainRecord "agent-1" 5, plainRecord "agent-2" 7, plainRecord "agent-3" 6] with maxEntries := 1 }

theorem richer_unsigned : Unsigned richer := by
  refine ⟨fun r hr => ?_, rfl⟩
  rcases List.mem_cons.mp hr with rfl | hr
  · exact plainRecord_plain _ _ (by decide) (by decide)
  · rcases List.mem_cons.mp hr with rfl | hr
    · exact plainRecord_plain _ _ (by decide) (by decide)
    · rw [List.mem_singleton.mp hr]
      exact plainRecord_plain _ _ (by decide) (by decide)

theorem richer_unique : OneRecordPerAgent richer.records := by
  unfold OneRecordPerAgent
  decide

theorem behind_unique : OneRecordPerAgent behind.records := by
  unfold OneRecordPerAgent
  decide

theorem gossipRound_mirrors_exchange_richer :
    Mirrors (.refl Bytes) (gossipRound (mirrorOf richer.node.registry richer_unique 4)
        (mirrorOf behind.node.registry behind_unique 4) richer.maxEntries.toNat).2
      (exchange ⟨none, insertionRevisionSort⟩ richer behind).peer.registry := by
  refine (gossipRound_mirrors_exchange ⟨none, insertionRevisionSort⟩ (.refl Bytes) _ _ richer behind richer_unsigned
    behind_unsigned richer_unique behind_unique ?_ ?_ ?_ ?_ ?_).2
  · decide
  · decide +kernel
  · decide +kernel
  · exact mirrorOf_mirrors _ _ _
  · exact mirrorOf_mirrors _ _ _

end BeaconNode.ChurnSimulation
