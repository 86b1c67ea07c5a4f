import BeaconNode.ControlRuns
import BeaconNode.EntryWire
import BeaconNode.RegistryLog

namespace BeaconNode.EngineRestart

open Words TextStream Records Crypto Identity Registry KeyedList LineProtocol ControlRuns Persistence WalReplay
  EntryWire VersionedLog RegistryLog Runs

/-- What the upsert callback of the engine logs. The metadata and the expiry
are not part of an entry. -/
def toEntry (record : AgentRecord) : RegistryEntry where
  agentId := record.agentId
  capability := record.nodeId
  endpoint := record.endpoint
  timestamp := record.revision
  publicKey := decodeHex record.publicKeyHex
  signature := decodeHex record.signatureHex

/-- A record of the restore loop, with the default expiry. -/
def fromEntry (entry : RegistryEntry) : AgentRecord where
  agentId := entry.agentId
  nodeId := entry.capability
  endpoint := entry.endpoint
  revision := entry.timestamp
  expiresAt := 0
  publicKeyHex := encodeHex entry.publicKey
  signatureHex := encodeHex entry.signature

structure Engine where
  node : Node
  service : PersistenceService := start {}

/-- The event reaches the node, and each call that the registry makes to its
callback appends an entry. -/
def engineStep (codec : EntryMessage) (platform : Platform) (protocol : ControlProtocol) (engine : Engine)
    (event : Event) : Engine :=
  let node := advance platform protocol engine.node event
  let calls := node.registry.onUpsert.drop engine.node.registry.onUpsert.length
  ⟨node, calls.foldl (fun service record => appendEntry codec service (toEntry record)) engine.service⟩

def restart (codec : EntryMessage) (now : TimePoint) (disk : Disk) : Except RecoverError AgentRegistry := do
  let recovered ← recover codec (start disk).disk
  if recovered = [] then pure {}
  else pure (({} : AgentRegistry).loadFromPersistence now (recovered.map fromEntry))

def Restores (codec : EntryCodec) (now : TimePoint) (engine : Engine) : Prop :=
  ∃ registry, restart codec now engine.service.disk = .ok registry ∧
    SameRevisions registry.records engine.node.registry.records

/-- What has been logged after the event is not too large to be replayed. -/
def Admissible (codec : EntryCodec) (platform : Platform) (protocol : ControlProtocol) (engine : Engine)
    (event : Event) : Prop :=
  ∀ r ∈ (engineStep codec platform protocol engine event).node.registry.onUpsert, Fits codec (toEntry r)

/-- The event does nothing that the log cannot show: no agent registers at
revision 0, no heartbeat raises a revision, no agent is purged. -/
def Mirrored (platform : Platform) (protocol : ControlProtocol) (node : Node) : Event → Prop
  | .line now text =>
      match lineOperation protocol now text with
      | .submit record => ¬ (record.revision = 0 ∧
          signatureAllowed platform.sodium protocol.trust record = true ∧
            findRecord record.agentId node.registry.records = none)
      | .refresh agentId revision => ∀ existing, findRecord agentId node.registry.records = some existing →
          revision ≤ existing.revision
      | .query => True
  | .purge now => ∀ r ∈ node.registry.records, now < r.expiresAt

/-- Replay drops entries of timestamp 0. -/
def replayed (log : List AgentRecord) : List AgentRecord := log.filter (fun r => 0 < r.revision)

structure EngineShape (codec : EntryCodec) (engine : Engine) : Prop where
  unique : OneRecordPerAgent engine.node.registry.records
  walFile : engine.service.walFile = true
  snapshot : engine.service.disk.snapshot = none
  wal : engine.service.disk.wal =
    some ((engine.node.registry.onUpsert.map toEntry).flatMap (entryBytes codec))
  fits : ∀ r ∈ engine.node.registry.onUpsert, Fits codec (toEntry r)

variable {codec : EntryCodec} {platform : Platform} {protocol : ControlProtocol} {engine : Engine} {node : Node}
  {record : AgentRecord}

theorem loggedRevision_fromEntry (a : Bytes) (log : List AgentRecord) :
    loggedRevision a ((log.map toEntry).map fromEntry) = loggedRevision a log := by
  induction log with
  | nil => rfl
  | cons r rs ih =>
      have hcons (x : AgentRecord) (xs : List AgentRecord) :
          loggedRevision a (x :: xs) = max (loggedRevision a [x]) (loggedRevision a xs) := latest_cons
      rw [List.map_cons, List.map_cons, hcons, ih, hcons r rs, loggedRevision_singleton, loggedRevision_singleton]
      rfl

theorem recover_log {service : PersistenceService} {log : List AgentRecord} (hs : service.disk.snapshot = none)
    (hw : service.disk.wal = some ((log.map toEntry).flatMap (entryBytes codec)))
    (hf : ∀ r ∈ log, Fits codec (toEntry r)) :
    recover codec (start service.disk).disk = .ok ((replayed log).map toEntry) := by
  have hread : ∀ e ∈ log.map toEntry, ReadBack codec e := by
    simpa using fun r hr => (hf r hr).readBack
  have hreplay := replay_entries 0 hread []
  have hkept : (log.map toEntry).filter (fun e => 0 < e.timestamp) = (replayed log).map toEntry := List.filter_map
  rw [List.append_nil, hkept] at hreplay
  have hsnapshot : (start service.disk).disk.snapshot = none := hs
  have hwal : (start service.disk).disk.wal = some ((log.map toEntry).flatMap (entryBytes codec)) := by
    simp [start, openWal, hw]
  rw [recover, hsnapshot, hwal]
  exact congrArg Except.ok (hreplay.trans (List.append_nil _))

theorem recover_engine (h : EngineShape codec engine) :
    recover codec (start engine.service.disk).disk = .ok ((replayed engine.node.registry.onUpsert).map toEntry) :=
  recover_log h.snapshot h.wal h.fits

theorem restart_engine (h : EngineShape codec engine) (now : TimePoint) :
    ∃ registry, restart codec now engine.service.disk = .ok registry ∧ ∀ a,
      revisionOf a registry.records = loggedRevision a (replayed engine.node.registry.onUpsert) := by
  have hload (a : Bytes) : revisionOf a (({} : AgentRegistry).loadFromPersistence now
      (((replayed engine.node.registry.onUpsert).map toEntry).map fromEntry)).records =
        loggedRevision a (replayed engine.node.registry.onUpsert) := by
    rw [revisionOf_loadFromPersistence, loggedRevision_fromEntry]
  refine ⟨_, ?_, hload⟩
  rw [restart, recover_engine h]
  change (if (replayed engine.node.registry.onUpsert).map toEntry = [] then _ else _) = _
  split
  next he => rw [he]; rfl
  next => rfl

def LogAgrees (node : Node) : Prop :=
  ∀ a, revisionOf a node.registry.records = loggedRevision a (replayed node.registry.onUpsert)

theorem restores_iff_logAgrees (h : EngineShape codec engine) (now : TimePoint) :
    Restores codec now engine ↔ LogAgrees engine.node := by
  obtain ⟨registry, hr, hrev⟩ := restart_engine h now
  constructor
  · rintro ⟨restored, hr', hs⟩ a
    obtain rfl : registry = restored := Except.ok.inj (hr.symm.trans hr')
    rw [← hrev, (sameRevisions_iff.mp hs) a]
  · intro hl
    refine ⟨registry, hr, sameRevisions_iff.mpr fun a => ?_⟩
    rw [hrev, hl]

theorem replayed_append (log : List AgentRecord) (record : AgentRecord) :
    replayed (log ++ [record]) = if 0 < record.revision then replayed log ++ [record] else replayed log := by
  by_cases h : 0 < record.revision
  · simp [replayed, h]
  · simp [replayed, h]

theorem LogAgrees.revisionOf_ne_zero (h : LogAgrees node) (a : Bytes) :
    revisionOf a node.registry.records ≠ ((0 : UInt64) : WithBot UInt64) := by
  rw [h a]
  intro hz
  obtain ⟨r, hr, -, hv⟩ := latest_mem hz
  have hpos : 0 < r.revision := by simpa using (List.mem_filter.mp hr).2
  exact absurd hv hpos.ne'

theorem logAgrees_accept (h : LogAgrees node) (ha : admits node.registry.records record = true) :
    LogAgrees (acceptRecord platform.sodium node record) ↔
      ¬ (record.revision = 0 ∧ findRecord record.agentId node.registry.records = none) := by
  have hrev (a : Bytes) : revisionOf a (acceptRecord platform.sodium node record).registry.records =
      max (revisionOf a node.registry.records) (loggedRevision a [record]) :=
    revisionOf_storeRecord_of_admits a ha
  have hlog : replayed (acceptRecord platform.sodium node record).registry.onUpsert =
      if 0 < record.revision then replayed node.registry.onUpsert ++ [record]
      else replayed node.registry.onUpsert :=
    replayed_append node.registry.onUpsert record
  by_cases hpos : 0 < record.revision
  · refine iff_of_true (fun a => ?_) (fun hz => hpos.ne' hz.1)
    rw [hrev, hlog, if_pos hpos, loggedRevision_append, h a]
  · have hz : record.revision = 0 := le_antisymm (not_lt.mp hpos) (uint64_zero_le _)
    have hfresh : findRecord record.agentId node.registry.records = none := by
      cases hf : findRecord record.agentId node.registry.records with
      | none => rfl
      | some existing =>
          have hle := (admits_iff.mp ha existing hf).1
          rw [hz] at hle
          have hze : existing.revision = 0 := le_antisymm hle (uint64_zero_le _)
          exact absurd ((revisionOf_some hf).trans (congrArg _ hze)) (h.revisionOf_ne_zero _)
    refine iff_of_false (fun hn => ?_) (fun hn => hn ⟨hz, hfresh⟩)
    have hself := hn record.agentId
    rw [hrev, hlog, if_neg hpos, ← h, revisionOf_none hfresh, loggedRevision_singleton, if_pos rfl] at hself
    cases hself

theorem logAgrees_submit (h : LogAgrees node) :
    LogAgrees (submitEffect platform.sodium protocol.trust node record) ↔
      ¬ (record.revision = 0 ∧ signatureAllowed platform.sodium protocol.trust record = true ∧
        findRecord record.agentId node.registry.records = none) := by
  by_cases hc : (signatureAllowed platform.sodium protocol.trust record &&
      admits node.registry.records record) = true
  · obtain ⟨hs, ha⟩ := Bool.and_eq_true_iff.mp hc
    rw [submitEffect, if_pos hc, logAgrees_accept h ha, hs]
    simp
  · rw [submitEffect, if_neg hc]
    refine iff_of_true h ?_
    rintro ⟨-, hs, hf⟩
    exact hc (Bool.and_eq_true_iff.mpr ⟨hs, by simp [admits, hf]⟩)

theorem revisionOf_handleHeartbeat (lifecycle : LifecycleConfig) (now : TimePoint) (revision : UInt64)
    {agentId : Bytes} {existing : AgentRecord} (hf : findRecord agentId node.registry.records = some existing)
    (a : Bytes) :
    revisionOf a (handleHeartbeat lifecycle now node agentId revision).1.registry.records =
      if a = agentId then max (revisionOf a node.registry.records) revision
      else revisionOf a node.registry.records := by
  simp only [handleHeartbeat, AgentRegistry.refreshHeartbeat, refreshRecords_eq, hf]
  by_cases hr : existing.revision ≤ revision
  · simp only [hr, if_true]
    by_cases ha : a = agentId
    · subst ha
      rw [if_pos rfl, revisionOf_some hf, max_eq_right (WithBot.coe_le_coe.mpr hr), revisionOf,
        findRecord_refresh, if_pos rfl, hf]
      rfl
    · rw [if_neg ha, revisionOf, findRecord_refresh, if_neg ha, revisionOf]
  · simp only [hr, if_false]
    by_cases ha : a = agentId
    · subst ha
      rw [if_pos rfl, revisionOf_some hf, max_eq_left (WithBot.coe_le_coe.mpr (not_le.mp hr).le)]
    · rw [if_neg ha]

theorem logAgrees_refresh {now : TimePoint} {agentId : Bytes} {revision : UInt64} (h : LogAgrees node) :
    LogAgrees (handleHeartbeat protocol.lifecycle now node agentId revision).1 ↔
      ∀ existing, findRecord agentId node.registry.records = some existing → revision ≤ existing.revision := by
  have hlog : (handleHeartbeat protocol.lifecycle now node agentId revision).1.registry.onUpsert =
      node.registry.onUpsert := by
    simp only [handleHeartbeat, AgentRegistry.refreshHeartbeat]
    split
    · rfl
    · rfl
  cases hf : findRecord agentId node.registry.records with
  | none =>
      have hsame : (handleHeartbeat protocol.lifecycle now node agentId revision).1 = node := by
        simp [handleHeartbeat, AgentRegistry.refreshHeartbeat, refreshRecords, hf]
      rw [hsame]
      exact iff_of_true h (by simp)
  | some existing =>
      have hrev := revisionOf_handleHeartbeat protocol.lifecycle now revision hf
      simp only [Option.some.injEq, forall_eq']
      constructor
      · intro hn
        have hself := hn agentId
        rw [hlog, ← h, hrev, if_pos rfl, revisionOf_some hf, max_eq_left_iff, WithBot.coe_le_coe] at hself
        exact hself
      · intro hle a
        rw [hlog, ← h, hrev]
        split
        next ha =>
          subst ha
          rw [revisionOf_some hf, max_eq_left (WithBot.coe_le_coe.mpr hle)]
        next => rfl

theorem logAgrees_purge {now : TimePoint} (hu : OneRecordPerAgent node.registry.records) (h : LogAgrees node) :
    LogAgrees { node with registry := (node.registry.purgeExpired now).1 } ↔
      ∀ r ∈ node.registry.records, now < r.expiresAt := by
  constructor
  · intro hn r hr
    by_contra hexp
    have hself := (hn r.agentId).trans (h r.agentId).symm
    have hgone : findRecord r.agentId (node.registry.purgeExpired now).1.records = none := by
      rw [findRecord_purgeExpired hu, hu.findRecord_of_mem hr]
      exact Option.filter_some_neg (by simpa using hexp)
    rw [revisionOf_some (hu.findRecord_of_mem hr)] at hself
    exact absurd ((revisionOf_none hgone).symm.trans hself) WithBot.bot_ne_coe
  · intro hk
    have hsame : node.registry.records.filter (fun r => now < r.expiresAt) = node.registry.records := by
      rw [List.filter_eq_self]
      simpa using hk
    intro a
    simp only [AgentRegistry.purgeExpired, hsame]
    exact h a

theorem logAgrees_advance (event : Event) (hu : OneRecordPerAgent node.registry.records) (h : LogAgrees node) :
    LogAgrees (advance platform protocol node event) ↔ Mirrored platform protocol node event := by
  cases event with
  | purge now => exact logAgrees_purge hu h
  | line now text =>
      rw [advance_line, Mirrored]
      cases lineOperation protocol now text with
      | submit record => exact logAgrees_submit h
      | refresh agentId revision => exact logAgrees_refresh h
      | query => exact iff_of_true h trivial

theorem advance_onUpsert (platform : Platform) (protocol : ControlProtocol) (node : Node) (event : Event) :
    node.registry.onUpsert <+: (advance platform protocol node event).registry.onUpsert := by
  cases event with
  | purge now => exact List.prefix_refl _
  | line now text =>
      rw [advance_line]
      cases lineOperation protocol now text with
      | submit record =>
          simp only [perform, submitEffect]
          split
          · exact List.prefix_append _ _
          · exact List.prefix_refl _
      | refresh agentId revision =>
          simp only [perform, handleHeartbeat, AgentRegistry.refreshHeartbeat]
          split
          · exact List.prefix_refl _
          · exact List.prefix_refl _
      | query => exact List.prefix_refl _

theorem foldl_appendEntry (codec : EntryMessage) (calls : List AgentRecord) {service : PersistenceService}
    {bytes : Bytes} (hw : service.walFile = true) (hb : service.disk.wal = some bytes) :
    let service' := calls.foldl (fun service record => appendEntry codec service (toEntry record)) service
    service'.walFile = true ∧ service'.disk.snapshot = service.disk.snapshot ∧
      service'.disk.wal = some (bytes ++ (calls.map toEntry).flatMap (entryBytes codec)) := by
  induction calls generalizing service bytes with
  | nil => exact ⟨hw, rfl, by simpa using hb⟩
  | cons r rs ih =>
      have hstep : appendEntry codec service (toEntry r) =
          { service with disk := writeWal service.disk (entryBytes codec (toEntry r)) } := by
        simp [appendEntry, hw]
      have hwal : (appendEntry codec service (toEntry r)).disk.wal =
          some (bytes ++ entryBytes codec (toEntry r)) := by
        simp [hstep, writeWal, hb]
      obtain ⟨hw', hs', hb'⟩ := ih (by rw [hstep]; exact hw) hwal
      refine ⟨hw', hs'.trans (by rw [hstep]; rfl), ?_⟩
      rw [List.foldl_cons, hb', List.map_cons, List.flatMap_cons, List.append_assoc]

theorem engineShape_engineStep (engine : Engine) (event : Event) (h : EngineShape codec engine)
    (ha : Admissible codec platform protocol engine event) :
    EngineShape codec (engineStep codec platform protocol engine event) := by
  obtain ⟨calls, hcalls⟩ := advance_onUpsert platform protocol engine.node event
  have hdrop : (advance platform protocol engine.node event).registry.onUpsert.drop
      engine.node.registry.onUpsert.length = calls := by
    rw [← hcalls, List.drop_left]
  obtain ⟨hw, hs, hb⟩ := foldl_appendEntry codec calls h.walFile h.wal
  refine ⟨advance_oneRecordPerAgent platform protocol event h.unique, ?_, ?_, ?_, ha⟩
  · simp only [engineStep, hdrop]
    exact hw
  · simp only [engineStep, hdrop]
    exact hs.trans h.snapshot
  · simp only [engineStep, hdrop]
    rw [hb, ← hcalls, List.map_append, List.flatMap_append]

/-- A restart brings back the agents and revisions that the engine had in
every state of a run exactly when each event of the run is one that the log
can show. -/
theorem restores_iff_mirrored (codec : EntryCodec) (platform : Platform) (protocol : ControlProtocol)
    (identity : Option IdentityService) (now : TimePoint) (events : List Event)
    (ha : Along (engineStep codec platform protocol) (Admissible codec platform protocol)
      { node := { identity := identity } } events) :
    Always (engineStep codec platform protocol) (Restores codec now) { node := { identity := identity } } events ↔
      Along (engineStep codec platform protocol)
        (fun engine event => Mirrored platform protocol engine.node event)
        { node := { identity := identity } } events := by
  have hinit : EngineShape codec { node := { identity := identity } } :=
    ⟨List.nodup_nil, rfl, rfl, rfl, by simp⟩
  apply always_iff_along (I := EngineShape codec) (A := Admissible codec platform protocol)
  · exact hinit
  · exact (restores_iff_logAgrees hinit now).mpr fun _ => rfl
  · intro engine event hi hae
    exact engineShape_engineStep engine event hi hae
  · intro engine event hi hae hp
    have hstep := engineShape_engineStep engine event hi hae
    rw [restores_iff_logAgrees hstep now]
    exact logAgrees_advance event hi.unique ((restores_iff_logAgrees hi now).mp hp)
  · exact ha

def openProtocol : ControlProtocol := {}

def plainPlatform : Platform := ⟨none, insertionRevisionSort⟩

def registeredRecord : AgentRecord :=
  { agentId := ascii "agent-1", nodeId := ascii "n", endpoint := ascii "e:1", revision := 1
    expiresAt := milliseconds 30000 }

def registerThenRaise : List Event :=
  [.line 0 (ascii "REGISTER agent_id=agent-1 node_id=n endpoint=e:1 revision=1"),
    .line 0 (ascii "HEARTBEAT agent_id=agent-1 revision=2")]

def freshEngine : Engine := { node := { identity := some {} } }

theorem registerThenRaise_admissible :
    Along (engineStep entryCodec plainPlatform openProtocol) (Admissible entryCodec plainPlatform openProtocol)
      freshEngine registerThenRaise := by
  have hlog : ∀ log, log = [registeredRecord] → ∀ r ∈ log, Fits entryCodec (toEntry r) := by
    rintro log rfl r hr
    rw [List.mem_singleton.mp hr]
    exact fits_of_length (by decide)
  exact along_cons.mpr ⟨hlog _ (by decide +kernel), along_cons.mpr ⟨hlog _ (by decide +kernel), along_nil⟩⟩

theorem restores_iff_mirrored_registerThenRaise :
    Always (engineStep entryCodec plainPlatform openProtocol) (Restores entryCodec 0)
        freshEngine registerThenRaise ↔
      Along (engineStep entryCodec plainPlatform openProtocol)
        (fun engine event => Mirrored plainPlatform openProtocol engine.node event)
        freshEngine registerThenRaise :=
  restores_iff_mirrored entryCodec plainPlatform openProtocol (some {}) 0 registerThenRaise
    registerThenRaise_admissible

def raisedEngine : Engine :=
  registerThenRaise.foldl (engineStep entryCodec plainPlatform openProtocol) freshEngine

theorem raisedEngine_restart :
    restart entryCodec 0 raisedEngine.service.disk =
        .ok { records := [registeredRecord.restamp (hours (24 * 365))] } ∧
      raisedEngine.node.registry.records = [{ registeredRecord with revision := 2 }] := by
  decide +kernel

/-- The heartbeat raises the revision in the registry alone. -/
theorem registerThenRaise_not_restores :
    Along (engineStep entryCodec plainPlatform openProtocol) (Admissible entryCodec plainPlatform openProtocol)
        freshEngine registerThenRaise ∧
      ¬ Always (engineStep entryCodec plainPlatform openProtocol) (Restores entryCodec 0)
        freshEngine registerThenRaise := by
  refine ⟨registerThenRaise_admissible, fun h => ?_⟩
  obtain ⟨registry, hr, hs⟩ := h.last
  obtain ⟨hrestart, hlive⟩ := raisedEngine_restart
  obtain rfl : _ = registry := Except.ok.inj (hrestart.symm.trans hr)
  have hagent := hs (ascii "agent-1")
  rw [← raisedEngine, hlive] at hagent
  exact absurd hagent (by decide)

end BeaconNode.EngineRestart
