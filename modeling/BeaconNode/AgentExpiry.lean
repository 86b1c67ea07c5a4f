import BeaconNode.AcceptedLines
import BeaconNode.RegistryShape
import BeaconNode.SyncRounds
import Mathlib.Logic.Function.Basic

namespace BeaconNode.AgentExpiry

open Words TextStream Records Crypto Identity Registry KeyedList LineProtocol SyncClient RecordCodec SyncRounds
  ControlRuns AcceptedLines RegistryShape Runs

variable {ι : Type}

/-- The nodes of a cluster share a build and a heartbeat lifetime. -/
structure Deployment (ι : Type) where
  platform : Platform
  lifecycle : LifecycleConfig := {}
  trust : ι → TrustConfig := fun _ => {}
  maxEntries : ι → UInt64 := fun _ => 256

def Deployment.protocol (d : Deployment ι) (i : ι) : ControlProtocol := ⟨d.lifecycle, d.trust i⟩

def Deployment.ttl (d : Deployment ι) : Int := milliseconds d.lifecycle.heartbeatTtl

structure Cluster (ι : Type) where
  nodes : ι → Node
  clock : TimePoint

def Cluster.records (c : Cluster ι) (i : ι) : List AgentRecord := (c.nodes i).registry.records

/-- A line or a purge at one node, or a gossip round of one node with
another. -/
inductive ClusterEvent (ι : Type)
  | control (i : ι) (event : Event)
  | sync (i j : ι) (now : TimePoint)

def eventTime : Event → TimePoint
  | .line now _ => now
  | .purge now => now

def ClusterEvent.now : ClusterEvent ι → TimePoint
  | .control _ event => eventTime event
  | .sync _ _ now => now

def round (d : Deployment ι) (c : Cluster ι) (i j : ι) (now : TimePoint) : Exchange :=
  syncWithPeer d.platform (d.maxEntries i) now (c.nodes i) (d.protocol j) now (c.nodes j)

def step [DecidableEq ι] (d : Deployment ι) (c : Cluster ι) : ClusterEvent ι → Cluster ι
  | .control i event =>
      ⟨Function.update c.nodes i (advance d.platform (d.protocol i) (c.nodes i) event), eventTime event⟩
  | .sync i j now =>
      ⟨Function.update (Function.update c.nodes i (round d c i j now).here) j (round d c i j now).peer, now⟩

def initial (identities : ι → Option IdentityService) (clock : TimePoint) : Cluster ι :=
  ⟨fun i => { identity := identities i }, clock⟩

/-- A line that stores or refreshes a record of the agent is not accepted
after the time. -/
def SilentAfter (d : Deployment ι) (time : TimePoint) (a : Bytes) (c : Cluster ι) : ClusterEvent ι → Prop
  | .control i (.line now text) =>
      match lineOperation (d.protocol i) now text with
      | .submit record => record.agentId = a →
          accepts d.platform.sodium (d.trust i) (c.nodes i) record = true → now ≤ time
      | .refresh agentId revision => agentId = a →
          (handleHeartbeat d.lifecycle now (c.nodes i) agentId revision).2 = true → now ≤ time
      | .query => True
  | .control _ (.purge _) => True
  | .sync _ _ _ => True

def deadline (d : Deployment ι) (time : TimePoint) : TimePoint := time + d.ttl + minutes 1

/-- Whichever node purges next after the deadline, the agent is gone there. -/
def GoneOnPurge [DecidableEq ι] (d : Deployment ι) (time : TimePoint) (a : Bytes) (c : Cluster ι) : Prop :=
  ∀ i now, c.clock ≤ now → deadline d time < now →
    findRecord a ((step d c (.control i (.purge now))).records i) = none

/-- A round that hands the agent's record on does so early enough for the new
expiry: a pulled record is given a minute, a pushed one the heartbeat
lifetime. A record is kept until the tick before it expires, hence one tick
more on both sides. -/
def HandsOnInTime (d : Deployment ι) (time : TimePoint) (a : Bytes) (c : Cluster ι) : ClusterEvent ι → Prop
  | .control _ _ => True
  | .sync i j now =>
      (∀ r ∈ newerEntries d.platform (d.maxEntries i) (c.nodes i) (c.nodes j), r.agentId = a →
        (mergeRecord d.platform.sodium (c.nodes i) (r.restamp (now + minutes 1))).2 = true →
          now ≤ time + d.ttl + 1) ∧
      (∀ r ∈ newerEntries d.platform (d.maxEntries i) (c.nodes j) (c.nodes i), r.agentId = a →
        accepts d.platform.sodium (d.trust j) (c.nodes j) (r.restamp (now + d.ttl)) = true →
          d.ttl ≤ 0 ∨ now ≤ time + minutes 1 + 1)

/-- No purge from the clock reading on that comes after the deadline would
keep a record with this expiry. -/
def Spent (deadline clock expiresAt : TimePoint) : Prop := ∀ now, clock ≤ now → deadline < now → expiresAt ≤ now

/-- What a round relies on at either end: records that lines can carry, one
for each agent. -/
structure Sound (node : Node) : Prop where
  unique : OneRecordPerAgent node.registry.records
  wireSafe : ∀ r ∈ node.registry.records, WireSafe r ∧ Addressed r

variable {d : Deployment ι} {time now clock expiresAt : TimePoint} {a : Bytes} {c : Cluster ι} {i j : ι}

theorem spent_iff {limit : TimePoint} : Spent limit clock expiresAt ↔ expiresAt ≤ max clock (limit + 1) := by
  constructor
  · intro h
    exact h _ (le_max_left _ _) (lt_of_lt_of_le (Int.lt_succ limit) (le_max_right _ _))
  · intro h later hc hl
    exact h.trans (max_le hc (Int.add_one_le_iff.mpr hl))

theorem Spent.mono {limit : TimePoint} (h : Spent limit clock expiresAt) (hc : clock ≤ now) :
    Spent limit now expiresAt :=
  fun later hl => h later (hc.trans hl)

theorem spent_of_le {limit : TimePoint} (h : expiresAt ≤ limit) : Spent limit clock expiresAt :=
  fun _ _ hl => h.trans hl.le

theorem stamp_le_iff {t n x y : Int} : (n + x ≤ n ∨ n + x ≤ t + y + x + 1) ↔ x ≤ 0 ∨ n ≤ t + y + 1 := by
  omega

theorem spent_pulled : Spent (deadline d time) now (now + minutes 1) ↔ now ≤ time + d.ttl + 1 := by
  have hminute : ¬ minutes 1 ≤ 0 := by decide
  rw [spent_iff, le_max_iff, deadline]
  exact stamp_le_iff.trans (or_iff_right hminute)

theorem spent_pushed : Spent (deadline d time) now (now + d.ttl) ↔ d.ttl ≤ 0 ∨ now ≤ time + minutes 1 + 1 := by
  rw [spent_iff, le_max_iff, deadline, add_right_comm time]
  exact stamp_le_iff

/-- A registry whose record of the agent, if it has one, does not outlive the
deadline. -/
def SpentAt (d : Deployment ι) (time clock : TimePoint) (a : Bytes) (node : Node) : Prop :=
  ∀ r, findRecord a node.registry.records = some r → Spent (deadline d time) clock r.expiresAt

theorem SpentAt.mono {node : Node} (h : SpentAt d time clock a node) (hc : clock ≤ now) :
    SpentAt d time now a node :=
  fun r hr => (h r hr).mono hc

/-- What the agent's record is after a batch of records, of which at most one
is its own, has been offered to a node. -/
theorem spentAt_offer {node after : Node} {accepted : AgentRecord → Bool} {records : List AgentRecord}
    (hu : (records.map AgentRecord.agentId).Nodup) (hs : SpentAt d time now a node)
    (h : findRecord a after.registry.records =
      match findRecord a records with
      | none => findRecord a node.registry.records
      | some r => if accepted r = true then some r else findRecord a node.registry.records) :
    SpentAt d time now a after ↔
      ∀ r ∈ records, r.agentId = a → accepted r = true → Spent (deadline d time) now r.expiresAt := by
  rw [SpentAt, h]
  cases hf : findRecord a records with
  | none =>
      refine iff_of_true hs fun r hr ha => ?_
      exact absurd ha (lookup_eq_none.mp hf r hr)
  | some r =>
      have hid := findRecord_agentId hf
      have hmem : r ∈ records := lookup_mem hf
      dsimp only
      constructor
      · intro hr s hsm hsa hacc
        have hsf : findRecord s.agentId records = some s := lookup_of_mem hu hsm
        rw [hsa, hf, Option.some.injEq] at hsf
        subst hsf
        rw [if_pos hacc] at hr
        exact hr r rfl
      · intro hr s hsf
        split at hsf
        next hacc =>
          obtain rfl := Option.some.inj hsf
          exact hr r hmem hid hacc
        next => exact hs s hsf

theorem purge_gone_iff {node : Node} (hu : OneRecordPerAgent node.registry.records) :
    (∀ now, clock ≤ now → deadline d time < now →
        findRecord a (node.registry.purgeExpired now).1.records = none) ↔ SpentAt d time clock a node := by
  have hfind (now : TimePoint) : findRecord a (node.registry.purgeExpired now).1.records = none ↔
      ∀ r, findRecord a node.registry.records = some r → r.expiresAt ≤ now := by
    rw [findRecord_purgeExpired hu, Option.filter_eq_none_iff]
    simp only [decide_eq_true_eq, not_lt]
  constructor
  · intro h r hr later hc hl
    exact (hfind later).mp (h later hc hl) r hr
  · intro h later hc hl
    exact (hfind later).mpr fun r hr => h r hr later hc hl

theorem advance_wireSafe {platform : Platform} {protocol : ControlProtocol} {node : Node} {r : AgentRecord}
    (event : Event) (h : ∀ r ∈ node.registry.records, WireSafe r ∧ Addressed r)
    (hr : r ∈ (advance platform protocol node event).registry.records) : WireSafe r ∧ Addressed r := by
  cases event with
  | purge now => exact h r (List.mem_of_mem_filter hr)
  | line now text =>
      rw [advance_line] at hr
      cases ho : lineOperation protocol now text with
      | submit record =>
          rw [ho] at hr
          rcases mem_submitEffect hr with hr | ⟨rfl, -⟩
          · exact h r hr
          · exact parseCommand_submit ho
      | refresh agentId revision =>
          rw [ho] at hr
          rcases mem_handleHeartbeat hr with hr | ⟨-, -, existing, hm, -, hx⟩
          · exact h r hr
          · rw [hx]
            exact ⟨(h existing hm).1.refresh _ _, (h existing hm).2⟩
      | query =>
          rw [ho] at hr
          exact h r hr

theorem Sound.advance {node : Node} (h : Sound node) (platform : Platform) (protocol : ControlProtocol)
    (event : Event) : Sound (advance platform protocol node event) where
  unique := advance_oneRecordPerAgent platform protocol event h.unique
  wireSafe _ hr := advance_wireSafe event h.wireSafe hr

theorem Sound.merge {node : Node} (h : Sound node) (sodium : Option Verifier) {records : List AgentRecord}
    (hr : ∀ r ∈ records, WireSafe r ∧ Addressed r) : Sound (merge sodium node records).1 where
  unique := merge_unique sodium node records h.unique
  wireSafe r hm := (mem_merge hm).elim (h.wireSafe r) (hr r)

theorem Sound.submits {node : Node} (h : Sound node) (sodium : Option Verifier) (trust : TrustConfig)
    {records : List AgentRecord} (hr : ∀ r ∈ records, WireSafe r ∧ Addressed r) :
    Sound (records.foldl (submitEffect sodium trust) node) := by
  induction records generalizing node with
  | nil => exact h
  | cons x xs ih =>
      refine ih ⟨submitEffect_oneRecordPerAgent sodium trust x h.unique, fun r hm => ?_⟩ fun r hm => hr r (by simp [hm])
      rcases mem_submitEffect hm with hm | ⟨rfl, -⟩
      · exact h.wireSafe r hm
      · exact hr r (by simp)

def offered (d : Deployment ι) (i : ι) (receiver sender : Node) (expiresAt : TimePoint) : List AgentRecord :=
  (newerEntries d.platform (d.maxEntries i) receiver sender).map (fun r => r.restamp expiresAt)

variable {receiver sender : Node}

theorem Sound.offered (h : Sound sender) : ∀ r ∈ offered d i receiver sender expiresAt, WireSafe r ∧ Addressed r := by
  intro r hr
  obtain ⟨s, hm, rfl⟩ := List.mem_map.mp hr
  obtain ⟨hw, ha⟩ := h.wireSafe s (mem_newerEntries hm).1
  exact ⟨hw.restamp expiresAt, ha⟩

theorem Sound.offered_nodup (h : Sound sender) (d : Deployment ι) (i : ι) (receiver : Node) (expiresAt : TimePoint) :
    ((AgentExpiry.offered d i receiver sender expiresAt).map AgentRecord.agentId).Nodup := by
  rw [AgentExpiry.offered, List.map_map]
  exact entriesAfterRevision_nodup h.unique

theorem round_here (hs : ∀ i, Sound (c.nodes i)) : (round d c i j now).here =
    (merge d.platform.sodium (c.nodes i) (offered d i (c.nodes i) (c.nodes j) (now + minutes 1))).1 :=
  syncWithPeer_here now fun r hr => ((hs j).wireSafe r hr).1

theorem round_peer (hs : ∀ i, Sound (c.nodes i)) : (round d c i j now).peer =
    (offered d i (c.nodes j) (c.nodes i) (now + d.ttl)).foldl (submitEffect d.platform.sodium (d.trust j))
      (c.nodes j) := by
  have hpush : ∀ r ∈ newerEntries d.platform (d.maxEntries i) (c.nodes j) (c.nodes i), WireSafe r ∧ Addressed r :=
    fun r hr => (hs i).wireSafe r (mem_newerEntries hr).1
  rw [round, syncWithPeer_peer now (fun r hr => ((hs j).wireSafe r hr).1), pushEntries_node _ _ _ _ _ hpush, offered,
    List.foldl_map]
  rfl

theorem here_spent_iff (hs : ∀ i, Sound (c.nodes i)) (hp : SpentAt d time now a (c.nodes i)) :
    SpentAt d time now a (round d c i j now).here ↔
      ∀ r ∈ newerEntries d.platform (d.maxEntries i) (c.nodes i) (c.nodes j), r.agentId = a →
        (mergeRecord d.platform.sodium (c.nodes i) (r.restamp (now + minutes 1))).2 = true →
          now ≤ time + d.ttl + 1 := by
  have hnodup := (hs j).offered_nodup d i (c.nodes i) (now + minutes 1)
  rw [round_here hs, spentAt_offer hnodup hp (findRecord_merge _ _ hnodup a), offered, List.forall_mem_map]
  simp only [AgentRecord.restamp, spent_pulled]

theorem peer_spent_iff (hs : ∀ i, Sound (c.nodes i)) (hp : SpentAt d time now a (c.nodes j)) :
    SpentAt d time now a (round d c i j now).peer ↔
      ∀ r ∈ newerEntries d.platform (d.maxEntries i) (c.nodes j) (c.nodes i), r.agentId = a →
        accepts d.platform.sodium (d.trust j) (c.nodes j) (r.restamp (now + d.ttl)) = true →
          d.ttl ≤ 0 ∨ now ≤ time + minutes 1 + 1 := by
  have hnodup := (hs i).offered_nodup d i (c.nodes j) (now + d.ttl)
  rw [round_peer hs, spentAt_offer hnodup hp (findRecord_submits _ _ _ hnodup a), offered, List.forall_mem_map]
  simp only [AgentRecord.restamp, spent_pushed]

/-- What a line stores or refreshes lives for the heartbeat lifetime, and that
ends before the deadline when the line came in time. -/
theorem spentAt_advance (event : Event) (hu : OneRecordPerAgent (c.nodes i).registry.records)
    (hp : SpentAt d time (eventTime event) a (c.nodes i)) (hq : SilentAfter d time a c (.control i event)) :
    SpentAt d time (eventTime event) a (advance d.platform (d.protocol i) (c.nodes i) event) := by
  have hstamp {now : TimePoint} (hn : now ≤ time) : Spent (deadline d time) now (now + d.ttl) := by
    have hminute : 0 ≤ minutes 1 := by decide
    exact spent_of_le ((add_le_add_left hn d.ttl).trans (le_add_of_nonneg_right hminute))
  intro r hr
  cases event with
  | purge now =>
      rw [advance, findRecord_purgeExpired hu, Option.filter_eq_some_iff] at hr
      exact hp r hr.1
  | line now text =>
      rw [advance_line] at hr
      cases ho : lineOperation (d.protocol i) now text with
      | submit record =>
          simp only [SilentAfter, ho] at hq
          rw [ho, perform, findRecord_submitEffect] at hr
          split at hr
          next hacc =>
            obtain rfl := Option.some.inj hr
            rw [parseCommand_stamp ho]
            exact hstamp (hq hacc.2.symm hacc.1)
          next => exact hp r hr
      | refresh agentId revision =>
          simp only [SilentAfter, ho] at hq
          rw [ho, perform, findRecord_handleHeartbeat] at hr
          split at hr
          next hacc =>
            obtain ⟨existing, -, rfl⟩ := Option.map_eq_some_iff.mp hr
            exact hstamp (hq hacc.2.symm hacc.1)
          next => exact hp r hr
      | query =>
          rw [ho] at hr
          exact hp r hr

theorem handsOnInTime_self : HandsOnInTime d time a c (.sync i i now) := by
  have hnone : ∀ r ∈ newerEntries d.platform (d.maxEntries i) (c.nodes i) (c.nodes i), False := by
    intro r hr
    obtain ⟨hm, hlt⟩ := mem_newerEntries hr
    exact absurd (le_highestRevision hm) (not_le.mpr hlt)
  exact ⟨fun r hr => (hnone r hr).elim, fun r hr => (hnone r hr).elim⟩

theorem sound_initial (identities : ι → Option IdentityService) (clock : TimePoint) :
    ∀ i, Sound ((initial identities clock).nodes i) :=
  fun _ => ⟨List.nodup_nil, fun _ hr => absurd hr List.not_mem_nil⟩

variable [DecidableEq ι]

theorem goneOnPurge_iff (hs : ∀ i, Sound (c.nodes i)) :
    GoneOnPurge d time a c ↔ ∀ i, SpentAt d time c.clock a (c.nodes i) := by
  apply forall_congr'
  intro i
  rw [← purge_gone_iff (hs i).unique]
  simp only [Cluster.records, step, advance, Function.update_self]

theorem forall_control {P : Node → Prop} {event : Event}
    (h : P (advance d.platform (d.protocol i) (c.nodes i) event)) (hall : ∀ k, P (c.nodes k)) :
    ∀ k, P ((step d c (.control i event)).nodes k) := by
  intro k
  by_cases hi : k = i
  · subst hi
    simpa only [step, Function.update_self] using h
  · simpa only [step, Function.update_of_ne hi] using hall k

theorem forall_sync {P : Node → Prop} (hhere : P (round d c i j now).here) (hpeer : P (round d c i j now).peer)
    (hall : ∀ k, P (c.nodes k)) : ∀ k, P ((step d c (.sync i j now)).nodes k) := by
  intro k
  by_cases hj : k = j
  · subst hj
    simpa only [step, Function.update_self] using hpeer
  by_cases hi : k = i
  · subst hi
    simpa only [step, Function.update_of_ne hj, Function.update_self] using hhere
  · simpa only [step, Function.update_of_ne hj, Function.update_of_ne hi] using hall k

theorem sync_here (hij : i ≠ j) : (step d c (.sync i j now)).nodes i = (round d c i j now).here := by
  simp only [step, Function.update_of_ne hij, Function.update_self]

theorem sync_peer : (step d c (.sync i j now)).nodes j = (round d c i j now).peer := by
  simp only [step, Function.update_self]

theorem sound_step (event : ClusterEvent ι) (hs : ∀ i, Sound (c.nodes i)) :
    ∀ i, Sound ((step d c event).nodes i) := by
  cases event with
  | control i event => exact forall_control ((hs i).advance _ _ event) hs
  | sync i j now =>
      apply forall_sync _ _ hs
      · rw [round_here hs]
        exact (hs i).merge _ (hs j).offered
      · rw [round_peer hs]
        exact (hs j).submits _ _ (hs i).offered

theorem spentAt_sync_iff (hs : ∀ i, Sound (c.nodes i)) (hp : ∀ i, SpentAt d time now a (c.nodes i)) :
    (∀ k, SpentAt d time now a ((step d c (.sync i j now)).nodes k)) ↔ HandsOnInTime d time a c (.sync i j now) := by
  have hhere := here_spent_iff (j := j) hs (hp i)
  have hpeer := peer_spent_iff (i := i) hs (hp j)
  constructor
  · intro h
    by_cases hij : i = j
    · subst hij
      exact handsOnInTime_self
    · have hi := h i
      have hj := h j
      rw [sync_here hij] at hi
      rw [sync_peer] at hj
      exact ⟨hhere.mp hi, hpeer.mp hj⟩
  · rintro ⟨hpull, hpush⟩
    exact forall_sync (hhere.mpr hpull) (hpeer.mpr hpush) hp

theorem goneOnPurge_step (event : ClusterEvent ι) (hs : ∀ i, Sound (c.nodes i)) (hc : c.clock ≤ event.now)
    (hq : SilentAfter d time a c event) (hp : GoneOnPurge d time a c) :
    GoneOnPurge d time a (step d c event) ↔ HandsOnInTime d time a c event := by
  have hlater : ∀ i, SpentAt d time event.now a (c.nodes i) := fun i => ((goneOnPurge_iff hs).mp hp i).mono hc
  rw [goneOnPurge_iff (sound_step event hs)]
  cases event with
  | control i event =>
      refine iff_of_true ?_ trivial
      exact forall_control (spentAt_advance event (hs i).unique (hlater i) hq) hlater
  | sync i j now => exact spentAt_sync_iff hs hlater

/-- In a run that hears nothing of an agent after some time, every purge that
comes a heartbeat lifetime and a minute later finds the agent dead exactly
when no round of the run hands its record on too late. -/
theorem goneOnPurge_iff_handsOnInTime (d : Deployment ι) (identities : ι → Option IdentityService)
    (clock time : TimePoint) (a : Bytes) (events : List (ClusterEvent ι))
    (h : Along (step d) (fun c event => c.clock ≤ event.now ∧ SilentAfter d time a c event)
      (initial identities clock) events) :
    Always (step d) (GoneOnPurge d time a) (initial identities clock) events ↔
      Along (step d) (HandsOnInTime d time a) (initial identities clock) events := by
  have hsound := sound_initial identities clock
  apply always_iff_along (I := fun c => ∀ i, Sound (c.nodes i))
    (A := fun c event => c.clock ≤ event.now ∧ SilentAfter d time a c event)
  · exact hsound
  · exact (goneOnPurge_iff hsound).mpr fun i r hr => by cases hr
  · intro c event hs _
    exact sound_step event hs
  · intro c event hs hq hp
    exact goneOnPurge_step event hs hq.1 hq.2 hp
  · exact h

omit [DecidableEq ι] in
theorem silentAfter_of_le {text : Bytes} (h : now ≤ time) : SilentAfter d time a c (.control i (.line now text)) := by
  simp only [SilentAfter]
  cases lineOperation (d.protocol i) now text with
  | submit record => exact fun _ _ => h
  | refresh agentId revision => exact fun _ _ => h
  | query => trivial

def pairDeployment : Deployment Bool := { platform := ⟨none, insertionRevisionSort⟩ }

def pairStart : Cluster Bool := initial (fun _ => some {}) 0

/-- One agent registers once. The second node pulls its record just before it
expires at the first, which purges it and then pulls it back. -/
def revival : List (ClusterEvent Bool) :=
  [.control false (.line 0 (ascii "REGISTER agent_id=agent-1 node_id=n endpoint=e:1 revision=1")),
    .sync true false (milliseconds 29000),
    .control false (.purge (milliseconds 31000)),
    .sync false true (milliseconds 80000),
    .control false (.purge (milliseconds 91000))]

theorem revival_silent :
    Along (step pairDeployment)
      (fun c event => c.clock ≤ event.now ∧ SilentAfter pairDeployment 0 (ascii "agent-1") c event)
      pairStart revival := by
  refine along_cons.mpr ⟨⟨le_rfl, silentAfter_of_le le_rfl⟩, ?_⟩
  refine along_cons.mpr ⟨⟨by decide, trivial⟩, ?_⟩
  refine along_cons.mpr ⟨⟨by decide, trivial⟩, ?_⟩
  refine along_cons.mpr ⟨⟨by decide, trivial⟩, ?_⟩
  exact along_cons.mpr ⟨⟨by decide, trivial⟩, along_nil⟩

theorem goneOnPurge_iff_handsOnInTime_revival :
    Always (step pairDeployment) (GoneOnPurge pairDeployment 0 (ascii "agent-1")) pairStart revival ↔
      Along (step pairDeployment) (HandsOnInTime pairDeployment 0 (ascii "agent-1")) pairStart revival :=
  goneOnPurge_iff_handsOnInTime pairDeployment (fun _ => some {}) 0 0 (ascii "agent-1") revival revival_silent

/-- The last purge comes 91 seconds after the only line of the agent and
leaves it registered. -/
theorem revival_not_gone :
    Along (step pairDeployment)
        (fun c event => c.clock ≤ event.now ∧ SilentAfter pairDeployment 0 (ascii "agent-1") c event)
        pairStart revival ∧
      revival.getLast? = some (.control false (.purge (milliseconds 91000))) ∧
      deadline pairDeployment 0 < milliseconds 91000 ∧
        findRecord (ascii "agent-1") ((revival.foldl (step pairDeployment) pairStart).records false) ≠ none := by
  exact ⟨revival_silent, rfl, by decide, by decide +kernel⟩

end BeaconNode.AgentExpiry
