import BeaconNode.AgentExpiry
import BeaconNode.GossipFixedPoint
import BeaconNode.GossipService
import BeaconNode.Spreading
import Mathlib.Data.Finset.Card
import Mathlib.Data.Finset.Dedup

namespace BeaconNode.GossipSpread

open Words TextStream Records Crypto Identity Registry LineProtocol SyncClient RecordCodec SyncRounds ControlRuns
  GossipFixedPoint RegistryShape GossipService Runs

variable {ι : Type} [DecidableEq ι] {net : Network ι} {agents : Finset Bytes} {s t : World ι} {i j k : ι}

def level (s : World ι) (i : ι) : UInt64 := highestRevision (s.nodes i).registry.records

def Known (agents : Finset Bytes) (r : AgentRecord) : Prop := Plain r ∧ r.agentId ∈ agents

structure NodeSound (agents : Finset Bytes) (node : Node) : Prop where
  unique : OneRecordPerAgent node.registry.records
  known : ∀ r ∈ node.registry.records, Known agents r

/-- What a thread carries from an earlier step has not been overtaken. -/
def PhaseSound (agents : Finset Bytes) (level : ι → UInt64) (i : ι) : Phase ι → Prop
  | .idle => True
  | .asking _ localRevision => localRevision ≤ level i
  | .pulling j localRevision remoteRevision => localRevision ≤ level i ∧ remoteRevision ≤ level j
  | .merging j remoteRevision records => remoteRevision ≤ level j ∧ ∀ r ∈ records, Known agents r
  | .pushing _ records => ∀ r ∈ records, Known agents r

structure Sound (agents : Finset Bytes) (s : World ι) : Prop where
  nodes : ∀ i, NodeSound agents (s.nodes i)
  threads : ∀ i, PhaseSound agents (level s) i (s.threads i).phase

/-- No node insists on signatures, and a page holds a record of every agent. -/
structure Open (net : Network ι) (agents : Finset Bytes) : Prop where
  unsigned : ∀ i, (net.protocol i).trust.requireSignatures = false
  roomy : ∀ i, net.maxEntries i = 0 ∨ agents.card ≤ (net.maxEntries i).toNat

/-- Lines may register known agents without keys; nothing is purged. -/
def Permitted (net : Network ι) (agents : Finset Bytes) : Step ι → Prop
  | .round _ _ | .proceed _ _ _ _ => True
  | .control i (.line now text) =>
      match lineOperation (net.protocol i) now text with
      | .submit record => record.publicKeyHex = [] ∧ record.signatureHex = [] ∧ record.agentId ∈ agents
      | .refresh _ _ | .query => True
  | .control _ (.purge _) => False

theorem Known.restamp {r : AgentRecord} (h : Known agents r) (t : TimePoint) : Known agents (r.restamp t) :=
  ⟨⟨h.1.wireSafe.restamp t, h.1.addressed, h.1.publicKeyHex, h.1.signatureHex⟩, h.2⟩

theorem highestRevision_mono {before after : List AgentRecord} (hu : OneRecordPerAgent before)
    (h : Grows before after) : highestRevision before ≤ highestRevision after := by
  rcases highestRevision_mem before with hz | ⟨r, hr, he⟩
  · rw [hz]
    exact uint64_zero_le _
  · obtain ⟨r', hr', hle⟩ := h _ r (hu.findRecord_of_mem hr)
    rw [← he]
    exact hle.trans (le_highestRevision (KeyedList.lookup_mem hr'))

theorem NodeSound.upsert {node : Node} (h : NodeSound agents node) {r : AgentRecord} (hr : Known agents r)
    {after : Node} (ha : after.registry = (node.registry.upsert r).1) : NodeSound agents after := by
  constructor
  · rw [ha]
    exact upsert_unique r h.unique
  · rw [ha]
    intro x hx
    rcases mem_upsert hx with hx | rfl
    · exact h.known x hx
    · exact hr

/-- A node takes up any record that is offered to it unless it has a newer
one. -/
theorem level_upsert {node after : Node} (h : NodeSound agents node) {r : AgentRecord} (hr : Known agents r)
    (ha : after.registry = (node.registry.upsert r).1) :
    highestRevision node.registry.records ≤ highestRevision after.registry.records ∧
      r.revision ≤ highestRevision after.registry.records := by
  rw [ha]
  exact ⟨highestRevision_mono h.unique (upsert_grows _ _), (upsert_covers _ hr.1.publicKeyHex).le_highestRevision⟩

theorem mergeRecord_registry (sodium : Option Verifier) (node : Node) {r : AgentRecord} (hr : Known agents r) :
    (mergeRecord sodium node r).1.registry = (node.registry.upsert r).1 := by
  rw [mergeRecord_keyless _ _ hr.1.publicKeyHex]
  rfl

omit [DecidableEq ι] in
theorem NodeSound.advance {node : Node} (h : NodeSound agents node) {now : TimePoint} {text : Bytes}
    (hx : Permitted net agents (.control i (.line now text))) :
    NodeSound agents (advance net.platform (net.protocol i) node (.line now text)) := by
  refine ⟨advance_oneRecordPerAgent _ _ _ h.unique, fun r hr => ?_⟩
  rw [advance_line] at hr
  cases ho : lineOperation (net.protocol i) now text with
  | submit record =>
      rw [ho] at hr
      simp only [Permitted, ho] at hx
      rcases mem_submitEffect hr with hr | ⟨rfl, -⟩
      · exact h.known r hr
      · obtain ⟨hkey, hsignature, hagent⟩ := hx
        obtain ⟨hw, ha⟩ := AcceptedLines.parseCommand_submit ho
        exact ⟨⟨hw, ha, hkey, hsignature⟩, hagent⟩
  | refresh agentId revision =>
      rw [ho] at hr
      rcases mem_handleHeartbeat hr with hr | ⟨-, -, existing, hm, -, he⟩
      · exact h.known r hr
      · obtain ⟨hplain, hagent⟩ := h.known existing hm
        rw [he]
        exact ⟨⟨hplain.wireSafe.refresh _ _, hplain.addressed, hplain.publicKeyHex, hplain.signatureHex⟩, hagent⟩
  | query =>
      rw [ho] at hr
      exact h.known r hr

theorem NodeSound.entries_iff {node : Node} (h : NodeSound agents node) {limit : UInt64}
    (hl : limit = 0 ∨ agents.card ≤ limit.toNat) {S : RevisionSort} {revision : UInt64} {r : AgentRecord} :
    r ∈ node.registry.entriesAfterRevision S revision limit ↔ r ∈ node.registry.records ∧ revision < r.revision := by
  refine ⟨mem_entriesAfterRevision, fun ⟨hm, hlt⟩ => ?_⟩
  have hselected : r ∈ S.sort (node.registry.records.filter (fun r => revision < r.revision)) :=
    (S.perm _).mem_iff.mpr (by simpa using ⟨hm, hlt⟩)
  have hcard : node.registry.records.length ≤ agents.card := by
    rw [← List.length_map (f := AgentRecord.agentId), ← List.toFinset_card_of_nodup h.unique]
    apply Finset.card_le_card
    intro a ha
    obtain ⟨x, hx, rfl⟩ := List.mem_map.mp (List.mem_toFinset.mp ha)
    exact (h.known x hx).2
  have hlength : (S.sort (node.registry.records.filter (fun r => revision < r.revision))).length ≤
      node.registry.records.length := by
    rw [(S.perm _).length_eq]
    exact List.length_filter_le _ _
  simp only [AgentRegistry.entriesAfterRevision]
  split
  next hcut =>
    obtain ⟨hpos, hlong⟩ := hcut
    rcases hl with rfl | hl
    · exact absurd hpos (by decide)
    · omega
  next => exact hselected

theorem NodeSound.exists_entry {node : Node} (h : NodeSound agents node) {limit : UInt64}
    (hl : limit = 0 ∨ agents.card ≤ limit.toNat) (S : RevisionSort) {revision : UInt64}
    (hlt : revision < highestRevision node.registry.records) :
    ∃ r ∈ node.registry.entriesAfterRevision S revision limit,
      r.revision = highestRevision node.registry.records := by
  rcases highestRevision_mem node.registry.records with hz | ⟨r, hr, he⟩
  · rw [hz] at hlt
    exact absurd (uint64_zero_le revision) (not_le.mpr hlt)
  · exact ⟨r, (h.entries_iff hl).mpr ⟨hr, he ▸ hlt⟩, he⟩

omit [DecidableEq ι] in
theorem PhaseSound.mono {before after : ι → UInt64} (hle : ∀ k, before k ≤ after k) {phase : Phase ι}
    (h : PhaseSound agents before i phase) : PhaseSound agents after i phase := by
  cases phase with
  | idle => trivial
  | asking j localRevision => exact le_trans h (hle i)
  | pulling j localRevision remoteRevision => exact ⟨h.1.trans (hle i), h.2.trans (hle j)⟩
  | merging j remoteRevision records => exact ⟨h.1.trans (hle j), h.2⟩
  | pushing j records => exact h

theorem level_setNode (s : World ι) (i : ι) (node : Node) :
    level (s.setNode i node) = Function.update (level s) i (highestRevision node.registry.records) := by
  funext k
  by_cases hk : k = i
  · subst hk
    simp [level]
  · simp [level, setNode_node_of_ne hk, Function.update_of_ne hk]

theorem level_le_setNode {node : Node} (hle : level s i ≤ highestRevision node.registry.records) (k : ι) :
    level s k ≤ level (s.setNode i node) k := by
  rw [level_setNode]
  by_cases hk : k = i
  · subst hk
    rwa [Function.update_self]
  · rw [Function.update_of_ne hk]

@[simp] theorem level_setThread (s : World ι) (i : ι) (thread : Thread ι) :
    level (s.setThread i thread) = level s := rfl

@[simp] theorem level_setPhase (s : World ι) (i : ι) (phase : Phase ι) : level (s.setPhase i phase) = level s := rfl

theorem Sound.setNode (h : Sound agents s) {node : Node} (hn : NodeSound agents node)
    (hle : level s i ≤ highestRevision node.registry.records) : Sound agents (s.setNode i node) where
  nodes k := by
    by_cases hk : k = i
    · subst hk
      rwa [setNode_node]
    · rw [setNode_node_of_ne hk]
      exact h.nodes k
  threads k := (h.threads k).mono (level_le_setNode hle)

theorem Sound.setThread (h : Sound agents s) {thread : Thread ι} (hp : PhaseSound agents (level s) i thread.phase) :
    Sound agents (s.setThread i thread) where
  nodes := h.nodes
  threads k := by
    by_cases hk : k = i
    · subst hk
      rwa [setThread_thread]
    · rw [setThread_thread_of_ne hk]
      exact h.threads k

theorem Sound.setPhase (h : Sound agents s) {phase : Phase ι} (hp : PhaseSound agents (level s) i phase) :
    Sound agents (s.setPhase i phase) :=
  h.setThread hp

variable {now peerNow : TimePoint} {delivery : Delivery} {localRevision remoteRevision : UInt64}
  {records : List AgentRecord} {r : AgentRecord}

theorem proceed_asking (hp : (s.threads i).phase = .asking j localRevision) :
    proceed net s i now peerNow delivery =
      s.setPhase i (if delivery = .answered then .pulling j localRevision (level s j) else .idle) := by
  rw [proceed, hp]
  simp only [request_eq, sendCommand_stats, ite_self, setNode_same, parseHighestRevision_statsText]
  rfl

def pulledEntries (net : Network ι) (s : World ι) (i j : ι) (localRevision : UInt64) (now : TimePoint) :
    List AgentRecord :=
  ((s.nodes j).registry.entriesAfterRevision net.platform.revisionSort localRevision (net.maxEntries i)).map
    (fun r => r.restamp (now + minutes 1))

theorem proceed_pulling (h : Sound agents s) (hp : (s.threads i).phase = .pulling j localRevision remoteRevision) :
    proceed net s i now peerNow delivery = s.setPhase i (if delivery = .answered then
      .merging j remoteRevision (pulledEntries net s i j localRevision now) else .idle) := by
  have hwire : ∀ r ∈ (s.nodes j).registry.entriesAfterRevision net.platform.revisionSort localRevision
      (net.maxEntries i), WireSafe r :=
    fun r hr => ((h.nodes j).known r (mem_entriesAfterRevision hr).1).1.wireSafe
  rw [proceed, hp]
  simp only [request_eq, sendCommand_syncPull, ite_self, setNode_same]
  rw [parseAgentLines_reply "sync_pull" (by decide) _ hwire]
  rfl

theorem proceed_merging_cons (hp : (s.threads i).phase = .merging j remoteRevision (r :: records)) :
    proceed net s i now peerNow delivery =
      (s.setNode i (mergeRecord net.platform.sodium (s.nodes i) r).1).setPhase i
        (.merging j remoteRevision records) := by
  rw [proceed, hp]

theorem proceed_merging_nil (hp : (s.threads i).phase = .merging j remoteRevision []) :
    proceed net s i now peerNow delivery = s.setPhase i (.pushing j
      ((s.nodes i).registry.entriesAfterRevision net.platform.revisionSort remoteRevision (net.maxEntries i))) := by
  rw [proceed, hp]
  rfl

theorem proceed_pushing_cons (hr : Known agents r) (hp : (s.threads i).phase = .pushing j (r :: records)) :
    proceed net s i now peerNow delivery =
      (s.setNode j (if delivery = .refused then s.nodes j else
        submitEffect net.platform.sodium (net.protocol j).trust (s.nodes j)
          (r.restamp (peerNow + milliseconds (net.protocol j).lifecycle.heartbeatTtl)))).setPhase i
        (if delivery = .answered then .pushing j records else .idle) := by
  rw [proceed, hp]
  simp only [request_eq, sendCommand_merge _ _ _ _ hr.1.wireSafe hr.1.addressed]

theorem proceed_pushing_nil (hp : (s.threads i).phase = .pushing j []) :
    proceed net s i now peerNow delivery = s.setPhase i .idle := by
  rw [proceed, hp]

/-- The world stays sound and no registry falls back. -/
structure Rises (agents : Finset Bytes) (s t : World ι) : Prop where
  sound : Sound agents t
  level : ∀ k, level s k ≤ level t k

omit [DecidableEq ι] in
theorem Rises.refl (h : Sound agents s) : Rises agents s s := ⟨h, fun _ => le_rfl⟩

omit [DecidableEq ι] in
theorem Rises.trans {u : World ι} (h : Rises agents s t) (h' : Rises agents t u) : Rises agents s u :=
  ⟨h'.sound, fun k => (h.level k).trans (h'.level k)⟩

theorem Rises.setPhase (h : Rises agents s t) {phase : Phase ι}
    (hp : PhaseSound agents (GossipSpread.level t) i phase) :
    Rises agents s (t.setPhase i phase) :=
  ⟨h.sound.setPhase hp, h.level⟩

theorem rises_upsert (h : Sound agents s) (hr : Known agents r) {node : Node}
    (hn : node.registry = ((s.nodes i).registry.upsert r).1) : Rises agents s (s.setNode i node) := by
  have hle : level s i ≤ highestRevision node.registry.records := (level_upsert (h.nodes i) hr hn).1
  exact ⟨h.setNode ((h.nodes i).upsert hr hn) hle, level_le_setNode hle⟩

theorem rises_push (ho : Open net agents) (h : Sound agents s) (hr : Known agents r) (expiresAt : TimePoint)
    (delivery : Delivery) :
    Rises agents s (s.setNode j (if delivery = .refused then s.nodes j else
      submitEffect net.platform.sodium (net.protocol j).trust (s.nodes j) (r.restamp expiresAt))) := by
  split
  · rw [setNode_same]
    exact Rises.refl h
  · apply rises_upsert h (hr.restamp expiresAt)
    exact submitEffect_keyless _ (ho.unsigned j) _ ((restamp_publicKeyHex r _).trans hr.1.publicKeyHex)

omit [DecidableEq ι] in
theorem Sound.known_entries (h : Sound agents s) {S : RevisionSort} {revision limit : UInt64} :
    ∀ r ∈ (s.nodes j).registry.entriesAfterRevision S revision limit, Known agents r :=
  fun r hr => (h.nodes j).known r (mem_entriesAfterRevision hr).1

omit [DecidableEq ι] in
theorem Sound.known_pulled (h : Sound agents s) : ∀ r ∈ pulledEntries net s i j localRevision now, Known agents r := by
  intro r hr
  obtain ⟨x, hx, rfl⟩ := List.mem_map.mp hr
  exact (h.known_entries x hx).restamp _

omit [DecidableEq ι] in
theorem phaseSound_answered {level : ι → UInt64} {phase : Phase ι} (h : PhaseSound agents level i phase)
    (delivery : Delivery) : PhaseSound agents level i (if delivery = .answered then phase else .idle) := by
  split
  · exact h
  · trivial

theorem proceed_rises (ho : Open net agents) (h : Sound agents s) (i : ι) (now peerNow : TimePoint)
    (delivery : Delivery) : Rises agents s (proceed net s i now peerNow delivery) := by
  have hphase := h.threads i
  cases hp : (s.threads i).phase with
  | idle =>
      rw [proceed, hp]
      dsimp only
      split
      · exact Rises.refl h
      · split
        · exact ⟨h.setThread trivial, fun _ => le_rfl⟩
        · exact ⟨h.setThread (le_refl (level s i)), fun _ => le_rfl⟩
  | asking j localRevision =>
      rw [hp] at hphase
      rw [proceed_asking hp]
      apply (Rises.refl h).setPhase
      apply phaseSound_answered
      exact ⟨hphase, le_rfl⟩
  | pulling j localRevision remoteRevision =>
      rw [hp] at hphase
      rw [proceed_pulling h hp]
      apply (Rises.refl h).setPhase
      apply phaseSound_answered
      exact ⟨hphase.2, h.known_pulled⟩
  | merging j remoteRevision records =>
      rw [hp] at hphase
      cases records with
      | nil =>
          rw [proceed_merging_nil hp]
          exact (Rises.refl h).setPhase h.known_entries
      | cons r records =>
          obtain ⟨hremote, hknown⟩ := hphase
          have hr : Known agents r := hknown r (by simp)
          have hrises := rises_upsert h hr (mergeRecord_registry net.platform.sodium (s.nodes i) hr)
          rw [proceed_merging_cons hp]
          exact hrises.setPhase ⟨hremote.trans (hrises.level j), fun x hx => hknown x (List.mem_cons_of_mem r hx)⟩
  | pushing j records =>
      rw [hp] at hphase
      cases records with
      | nil =>
          rw [proceed_pushing_nil hp]
          exact (Rises.refl h).setPhase trivial
      | cons r records =>
          have hr : Known agents r := hphase r (by simp)
          rw [proceed_pushing_cons hr hp]
          apply (rises_push ho h hr _ delivery).setPhase
          apply phaseSound_answered
          exact fun x hx => hphase x (List.mem_cons_of_mem r hx)

theorem step_rises (ho : Open net agents) (h : Sound agents s) {x : Step ι} (hx : Permitted net agents x) :
    Rises agents s (step net s x) := by
  cases x with
  | round i S =>
      rw [step, beginRound]
      split
      · exact ⟨h.setThread trivial, fun _ => le_rfl⟩
      · exact Rises.refl h
  | proceed i now peerNow delivery => exact proceed_rises ho h i now peerNow delivery
  | control i event =>
      cases event with
      | purge now => exact absurd hx id
      | line now text =>
          have hgrows := perform_grows net.platform.sodium (net.protocol i) now (s.nodes i)
            (lineOperation (net.protocol i) now text)
          rw [← advance_line] at hgrows
          have hle := highestRevision_mono (h.nodes i).unique hgrows
          exact ⟨h.setNode ((h.nodes i).advance hx) hle, level_le_setNode hle⟩

theorem run_rises (ho : Open net agents) (h : Sound agents s) {steps : List (Step ι)}
    (hx : ∀ x ∈ steps, Permitted net agents x) : Rises agents s (run net s steps) := by
  induction steps generalizing s with
  | nil => exact Rises.refl h
  | cons x xs ih =>
      have hstep := step_rises ho h (hx x (by simp))
      exact hstep.trans (ih hstep.sound fun y hy => hx y (by simp [hy]))

/-- The step is not a failed connection of thread i. -/
def Undisrupted (i : ι) : Step ι → Prop
  | .proceed k _ _ delivery => k = i → delivery = .answered
  | .round _ _ | .control _ _ => True

def PullPending (v : UInt64) (j : ι) (peer : GossipPeer) (thread : Thread ι) : Prop :=
  peer ∈ thread.queue ∨ match thread.phase with
    | .asking k _ | .pulling k _ _ => k = j
    | .merging _ _ records => ∃ r ∈ records, v ≤ r.revision
    | .idle | .pushing _ _ => False

def PushPending (v : UInt64) (j : ι) (peer : GossipPeer) (thread : Thread ι) : Prop :=
  peer ∈ thread.queue ∨ match thread.phase with
    | .asking k _ | .pulling k _ _ | .merging k _ _ => k = j
    | .pushing k records => k = j ∧ ∃ r ∈ records, v ≤ r.revision
    | .idle => False

theorem proceed_thread_of_ne (hki : i ≠ k) (now peerNow : TimePoint) (delivery : Delivery) :
    (proceed net s k now peerNow delivery).threads i = s.threads i := by
  rw [proceed]
  split
  · split
    · rfl
    · split
      · exact setThread_thread_of_ne hki _
      · exact setThread_thread_of_ne hki _
  all_goals simp only [request, World.setPhase, setThread_thread_of_ne hki, setNode_threads]

/-- Only its own steps move a thread on, and a round begins only when there is
nothing left of the one before. -/
theorem step_thread {x : Step ι} (hx : ∀ now peerNow delivery, x ≠ .proceed i now peerNow delivery)
    (hbusy : s.threads i ≠ {}) : (step net s x).threads i = s.threads i := by
  cases x with
  | round k S =>
      rw [step, beginRound]
      split
      next hidle =>
        apply setThread_thread_of_ne
        rintro rfl
        exact hbusy hidle
      next => rfl
  | proceed k now peerNow delivery =>
      apply proceed_thread_of_ne
      rintro rfl
      exact hx now peerNow delivery rfl
  | control k event => rfl

variable {v : UInt64} {peer : GossipPeer}

omit [DecidableEq ι] in
/-- A node behind the one it has asked reads from the reply something that is
as new. -/
theorem exists_pulled (ho : Open net agents) (h : Sound agents s) (hv : v ≤ level s j) (hlt : localRevision < v)
    (now : TimePoint) : ∃ r ∈ pulledEntries net s i j localRevision now, v ≤ r.revision := by
  obtain ⟨r, hr, he⟩ := (h.nodes j).exists_entry (ho.roomy i) net.platform.revisionSort (hlt.trans_le hv)
  refine ⟨r.restamp (now + minutes 1), List.mem_map_of_mem hr, ?_⟩
  rw [restamp_revision, he]
  exact hv

theorem proceed_pull (ho : Open net agents) (h : Sound agents s)
    (hl : net.listening peer.host peer.controlPort = some j) (hv : v ≤ level s j)
    (hp : PullPending v j peer (s.threads i)) :
    v ≤ level (proceed net s i now peerNow .answered) i ∨
      PullPending v j peer ((proceed net s i now peerNow .answered).threads i) := by
  have hsound := h.threads i
  cases hphase : (s.threads i).phase with
  | idle =>
      have hmem : peer ∈ (s.threads i).queue := by simpa [PullPending, hphase] using hp
      right
      cases hqueue : (s.threads i).queue with
      | nil => simp [hqueue] at hmem
      | cons first queue =>
          rw [hqueue] at hmem
          rw [proceed, hphase]
          simp only [hqueue]
          rcases List.mem_cons.mp hmem with rfl | hmem
          · simp [PullPending, hl]
          · split
            · simp [PullPending, hmem]
            · simp [PullPending, hmem]
  | asking k localRevision =>
      right
      rw [proceed_asking hphase]
      simpa [PullPending, hphase] using hp
  | pulling k localRevision remoteRevision =>
      rw [hphase] at hsound
      rw [proceed_pulling h hphase, level_setPhase]
      by_cases hlt : localRevision < v
      · right
        simp only [PullPending, hphase] at hp
        simp only [PullPending, setPhase_queue, setPhase_phase, if_true]
        rcases hp with hp | rfl
        · exact Or.inl hp
        · exact Or.inr (exists_pulled ho h hv hlt now)
      · left
        exact (not_lt.mp hlt).trans hsound.1
  | merging k remoteRevision records =>
      rw [hphase] at hsound
      simp only [PullPending, hphase] at hp
      cases records with
      | nil =>
          right
          rw [proceed_merging_nil hphase]
          simpa [PullPending] using hp
      | cons r records =>
          have hr : Known agents r := hsound.2 r (by simp)
          rw [proceed_merging_cons hphase]
          simp only [PullPending, setPhase_queue, setPhase_phase, level_setPhase, setNode_threads]
          rcases hp with hp | ⟨x, hx, hvx⟩
          · exact Or.inr (Or.inl hp)
          · rcases List.mem_cons.mp hx with rfl | hx
            · left
              rw [level_setNode, Function.update_self]
              exact hvx.trans (level_upsert (h.nodes i) hr (mergeRecord_registry _ _ hr)).2
            · exact Or.inr (Or.inr ⟨x, hx, hvx⟩)
  | pushing k records =>
      rw [hphase] at hsound
      right
      simp only [PullPending, hphase, or_false] at hp
      left
      cases records with
      | nil => rwa [proceed_pushing_nil hphase, setPhase_queue]
      | cons r records => rwa [proceed_pushing_cons (hsound r (by simp)) hphase, setPhase_queue, setNode_threads]

theorem proceed_push (ho : Open net agents) (h : Sound agents s)
    (hl : net.listening peer.host peer.controlPort = some j) (hv : v ≤ level s i)
    (hp : PushPending v j peer (s.threads i)) :
    v ≤ level (proceed net s i now peerNow .answered) j ∨
      PushPending v j peer ((proceed net s i now peerNow .answered).threads i) := by
  have hsound := h.threads i
  cases hphase : (s.threads i).phase with
  | idle =>
      have hmem : peer ∈ (s.threads i).queue := by simpa [PushPending, hphase] using hp
      right
      cases hqueue : (s.threads i).queue with
      | nil => simp [hqueue] at hmem
      | cons first queue =>
          rw [hqueue] at hmem
          rw [proceed, hphase]
          simp only [hqueue]
          rcases List.mem_cons.mp hmem with rfl | hmem
          · simp [PushPending, hl]
          · split
            · simp [PushPending, hmem]
            · simp [PushPending, hmem]
  | asking k localRevision =>
      right
      rw [proceed_asking hphase]
      simpa [PushPending, hphase] using hp
  | pulling k localRevision remoteRevision =>
      right
      rw [proceed_pulling h hphase]
      simpa [PushPending, hphase] using hp
  | merging k remoteRevision records =>
      rw [hphase] at hsound
      simp only [PushPending, hphase] at hp
      cases records with
      | nil =>
          rw [proceed_merging_nil hphase, level_setPhase]
          by_cases hlt : remoteRevision < v
          · right
            simp only [PushPending, setPhase_queue, setPhase_phase]
            rcases hp with hp | rfl
            · exact Or.inl hp
            · obtain ⟨r, hr, he⟩ := (h.nodes i).exists_entry (ho.roomy i) net.platform.revisionSort (hlt.trans_le hv)
              exact Or.inr ⟨rfl, r, hr, hv.trans he.ge⟩
          · rcases hp with hp | rfl
            · right
              exact Or.inl (by rwa [setPhase_queue])
            · left
              exact (not_lt.mp hlt).trans hsound.1
      | cons r records =>
          right
          rw [proceed_merging_cons hphase]
          simpa [PushPending] using hp
  | pushing k records =>
      rw [hphase] at hsound
      simp only [PushPending, hphase] at hp
      cases records with
      | nil =>
          right
          rw [proceed_pushing_nil hphase]
          simpa [PushPending] using hp
      | cons r records =>
          have hr : Known agents r := hsound r (by simp)
          rw [proceed_pushing_cons hr hphase]
          simp only [PushPending, setPhase_queue, setPhase_phase, level_setPhase, setNode_threads, if_true]
          rcases hp with hp | ⟨rfl, x, hx, hvx⟩
          · exact Or.inr (Or.inl hp)
          · rcases List.mem_cons.mp hx with rfl | hx
            · left
              rw [level_setNode, Function.update_self, if_neg (by decide)]
              rw [← restamp_revision x (peerNow + milliseconds (net.protocol k).lifecycle.heartbeatTtl)] at hvx
              exact hvx.trans (level_upsert (h.nodes k) (hr.restamp _) (submitEffect_keyless _ (ho.unsigned k) _
                ((restamp_publicKeyHex x _).trans hr.1.publicKeyHex))).2
            · exact Or.inr (Or.inr ⟨rfl, x, hx, hvx⟩)

/-- What a thread owes is done by the time it has nothing left to do: o is the
node that knows, g the one that is to learn. -/
theorem run_pending (ho : Open net agents) {o g : ι} {pending : Thread ι → Prop} (hidle : ¬ pending {})
    (hproceed : ∀ s now peerNow, Sound agents s → v ≤ level s o → pending (s.threads i) →
      v ≤ level (proceed net s i now peerNow .answered) g ∨
        pending ((proceed net s i now peerNow .answered).threads i))
    {steps : List (Step ι)} (h : Sound agents s) (hv : v ≤ level s o)
    (hp : v ≤ level s g ∨ pending (s.threads i))
    (hx : ∀ x ∈ steps, Permitted net agents x ∧ Undisrupted i x) :
    v ≤ level (run net s steps) g ∨ pending ((run net s steps).threads i) := by
  induction steps generalizing s with
  | nil => exact hp
  | cons x steps ih =>
      obtain ⟨hpermitted, hundisrupted⟩ := hx x (by simp)
      have hrises := step_rises ho h hpermitted
      apply ih hrises.sound (hv.trans (hrises.level o)) _ (fun y hy => hx y (by simp [hy]))
      rcases hp with hp | hp
      · exact Or.inl (hp.trans (hrises.level g))
      · by_cases hown : ∃ now peerNow delivery, x = .proceed i now peerNow delivery
        · obtain ⟨now, peerNow, delivery, rfl⟩ := hown
          obtain rfl : delivery = .answered := hundisrupted rfl
          exact hproceed s now peerNow h hv hp
        · right
          rw [step_thread (fun now peerNow delivery he => hown ⟨now, peerNow, delivery, he⟩)]
          · exact hp
          · rintro hthread
            exact hidle (hthread ▸ hp)

/-- Within these steps node i begins a round and comes to its end, without a
failed connection of its own in between. -/
def CompletesRound (net : Network ι) (s : World ι) (steps : List (Step ι)) (i : ι) : Prop :=
  ∃ before S during after, steps = before ++ .round i S :: (during ++ after) ∧
    (run net s before).threads i = {} ∧ (run net s (before ++ .round i S :: during)).threads i = {} ∧
    ∀ x ∈ during, Undisrupted i x

theorem run_append (net : Network ι) (s : World ι) (steps more : List (Step ι)) :
    run net s (steps ++ more) = run net (run net s steps) more := by
  rw [run, List.foldl_append]
  rfl

theorem completed_round (ho : Open net agents) {o g : ι} {pending : Thread ι → Prop} (hidle : ¬ pending {})
    (hproceed : ∀ s now peerNow, Sound agents s → v ≤ level s o → pending (s.threads i) →
      v ≤ level (proceed net s i now peerNow .answered) g ∨
        pending ((proceed net s i now peerNow .answered).threads i))
    (hbegin : ∀ queue, peer ∈ queue → pending ⟨queue, .idle⟩) (hpeer : peer ∈ net.peers i)
    (hfan : (net.peers i).length ≤ gossipFanout) {steps : List (Step ι)} (h : Sound agents s) (hv : v ≤ level s o)
    (hx : ∀ x ∈ steps, Permitted net agents x) (hround : CompletesRound net s steps i) :
    v ≤ level (run net s steps) g := by
  obtain ⟨before, S, during, after, rfl, hstart, hend, hundisrupted⟩ := hround
  have hbefore : Rises agents s (run net s before) := run_rises ho h fun x hm => hx x (by simp [hm])
  have hv' : v ≤ level (run net s before) o := hv.trans (hbefore.level o)
  have hbegun : (step net (run net s before) (.round i S)).threads i = ⟨pickPeers S (net.peers i), .idle⟩ := by
    rw [step, beginRound, if_pos hstart, setThread_thread]
  have hrises : Rises agents _ (step net (run net s before) (.round i S)) := step_rises ho hbefore.sound trivial
  have howed : pending ((step net (run net s before) (.round i S)).threads i) := by
    rw [hbegun]
    exact hbegin _ ((pickPeers_perm S hfan).mem_iff.mpr hpeer)
  have hsteps : ∀ x ∈ during, Permitted net agents x ∧ Undisrupted i x :=
    fun x hm => ⟨hx x (by simp [hm]), hundisrupted x hm⟩
  have hpending := run_pending ho hidle hproceed hrises.sound (hv'.trans (hrises.level o)) (Or.inr howed) hsteps
  have hduring : run net (step net (run net s before) (.round i S)) during =
      run net s (before ++ .round i S :: during) := by
    rw [run_append]
    rfl
  rw [hduring, hend] at hpending
  have hlearned := hpending.resolve_right hidle
  have hwhole : run net s (before ++ .round i S :: (during ++ after)) =
      run net (run net s (before ++ .round i S :: during)) after := by
    rw [← run_append]
    simp
  have hmiddle : Rises agents s (run net s (before ++ .round i S :: during)) := by
    apply run_rises ho h
    intro x hm
    apply hx
    simp only [List.mem_append, List.mem_cons] at hm ⊢
    tauto
  have hafter : Rises agents (run net s (before ++ .round i S :: during))
      (run net (run net s (before ++ .round i S :: during)) after) :=
    run_rises ho hmiddle.sound fun x hm => hx x (by simp [hm])
  rw [hwhole]
  exact hlearned.trans (hafter.level g)

def peerGraph (net : Network ι) : SimpleGraph ι :=
  SimpleGraph.fromRel fun i j => ∃ peer ∈ net.peers i, net.listening peer.host peer.controlPort = some j

structure Period (net : Network ι) (agents : Finset Bytes) (s : World ι) (steps : List (Step ι)) : Prop where
  permitted : ∀ x ∈ steps, Permitted net agents x
  completes : ∀ i, CompletesRound net s steps i

theorem period_passes (ho : Open net agents) (hfan : ∀ i, (net.peers i).length ≤ gossipFanout) {steps : List (Step ι)}
    (h : Sound agents s) (hperiod : Period net agents s steps) (hadj : (peerGraph net).Adj i j) :
    level s i ≤ level (run net s steps) j := by
  obtain ⟨-, hij | hji⟩ := (SimpleGraph.fromRel_adj _ i j).mp hadj
  · obtain ⟨peer, hpeer, hl⟩ := hij
    exact completed_round ho (by simp [PushPending]) (fun s now peerNow hs hv hp => proceed_push ho hs hl hv hp)
      (fun queue hq => Or.inl hq) hpeer (hfan i) h le_rfl hperiod.permitted (hperiod.completes i)
  · obtain ⟨peer, hpeer, hl⟩ := hji
    exact completed_round ho (by simp [PullPending]) (fun s now peerNow hs hv hp => proceed_pull ho hs hl hv hp)
      (fun queue hq => Or.inl hq) hpeer (hfan j) h le_rfl hperiod.permitted (hperiod.completes j)

/-- In every period each node completes a round, and nothing is said about
what else happens when. Then a node at a distance of d peers from another knows
after d periods of everything that was known there before. -/
theorem news_spreads (net : Network ι) (agents : Finset Bytes) (s : World ι) (periods : List (List (Step ι)))
    (ho : Open net agents) (hfan : ∀ i, (net.peers i).length ≤ gossipFanout) (hs : Sound agents s)
    (hperiods : Along (run net) (Period net agents) s periods) {i j : ι} (walk : (peerGraph net).Walk i j)
    (hwalk : walk.length ≤ periods.length) :
    level s i ≤ level (periods.foldl (run net) s) j := by
  refine Spreading.knows_of_walk (K := fun t k => level s i ≤ level t k) (I := Sound agents) ?_ ?_ ?_ hs hperiods
    walk hwalk le_rfl
  · exact fun t steps ht hp => (run_rises ho ht hp.permitted).sound
  · exact fun t steps k ht hp hk => hk.trans ((run_rises ho ht hp.permitted).level k)
  · exact fun t steps a b ht hp hab hk => hk.trans (period_passes ho hfan ht hp hab)

def keepOrder : Shuffle := ⟨id, List.Perm.refl⟩

def pairRound : List (Step Bool) := .round false keepOrder :: List.replicate 6 (.proceed false 0 0 .answered)

def pairSteps : List (Step Bool) := pairRound ++ [.round true keepOrder]

theorem pairNetwork_open : Open pairNetwork {ascii "agent-1"} := by
  have hroom : 1 ≤ (256 : UInt64).toNat := by decide
  exact ⟨fun _ => rfl, fun _ => Or.inr hroom⟩

theorem pairWorld_sound : Sound {ascii "agent-1"} pairWorld := by
  refine ⟨fun i => ?_, fun i => trivial⟩
  cases i with
  | false => exact ⟨List.nodup_nil, fun r hr => absurd hr List.not_mem_nil⟩
  | true =>
      refine ⟨List.nodup_singleton _, fun r hr => ?_⟩
      obtain rfl := List.mem_singleton.mp hr
      exact ⟨plainRecord_plain _ _ (by decide) (by decide), by decide⟩

theorem pairSteps_completes (i : Bool) : CompletesRound pairNetwork pairWorld pairSteps i := by
  cases i with
  | false =>
      refine ⟨[], keepOrder, List.replicate 6 (.proceed false 0 0 .answered), [.round true keepOrder], rfl, rfl, ?_, ?_⟩
      · decide +kernel
      · exact fun x hx => List.eq_of_mem_replicate hx ▸ fun _ => rfl
  | true => exact ⟨pairRound, keepOrder, [], [], rfl, by decide +kernel, by decide +kernel, by simp⟩

theorem pairNetwork_adj : (peerGraph pairNetwork).Adj true false :=
  (SimpleGraph.fromRel_adj _ true false).mpr ⟨by decide, Or.inr ⟨pairPeer, by decide, rfl⟩⟩

theorem pairNetwork_fan (i : Bool) : (pairNetwork.peers i).length ≤ gossipFanout := by
  cases i with
  | false | true => decide

theorem along_pair {Q : World Bool → List (Step Bool) → Prop} (h : Q pairWorld pairSteps) :
    Along (run pairNetwork) Q pairWorld [pairSteps] :=
  along_cons.mpr ⟨h, along_nil⟩

theorem pairSteps_gossip : ∀ x ∈ pairSteps, ∀ i event, x ≠ .control i event := by
  intro x hx i event he
  subst he
  simp [pairSteps, pairRound] at hx

theorem news_spreads_pair :
    level pairWorld true ≤ level ([pairSteps].foldl (run pairNetwork) pairWorld) false := by
  refine news_spreads pairNetwork {ascii "agent-1"} pairWorld [pairSteps] pairNetwork_open pairNetwork_fan
    pairWorld_sound (along_pair ⟨fun x hx => ?_, pairSteps_completes⟩) (.cons pairNetwork_adj .nil) le_rfl
  cases x with
  | round | proceed => trivial
  | control i event => exact absurd rfl (pairSteps_gossip _ hx i event)

end BeaconNode.GossipSpread
