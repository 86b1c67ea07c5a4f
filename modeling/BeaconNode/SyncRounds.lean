import BeaconNode.RecordCodec

namespace BeaconNode.SyncRounds

open Words TextStream OrderedMap Records Crypto Identity Registry LineProtocol SyncClient RecordCodec

variable (platform : Platform) (protocol : ControlProtocol) (now : TimePoint)

theorem parseHighestRevision_statsText (stats : RegistryStats) :
    parseHighestRevision (ascii "OK " ++ statsText stats ++ ascii "\n") = stats.highestRevision := by
  let active := ascii "active_agents=" ++ decimal stats.activeAgents
  let highest := ascii "highest_revision=" ++ decimal stats.highestRevision.toNat
  have htext : ascii "OK " ++ statsText stats ++ ascii "\n" =
      ascii "OK" ++ [active, highest].flatMap (fun w => space :: w) ++ [newline] := by
    have ho : ascii "OK " = ascii "OK" ++ [space] := rfl
    have hh : ascii " highest_revision=" = space :: ascii "highest_revision=" := rfl
    have hn : ascii "\n" = [newline] := rfl
    simp [statsText, active, highest, ho, hh, hn]
  have htokens : splitTokens (ascii "OK " ++ statsText stats ++ ascii "\n") = [ascii "OK", active, highest] := by
    rw [htext, splitTokens, tokensFrom_trailing _ _ _ rfl]
    apply splitTokens_words
    simp only [List.forall_mem_cons, List.not_mem_nil, false_imp_iff, implies_true, and_true]
    refine ⟨⟨by decide, by decide⟩, ⟨by simp [active, ascii], ?_⟩, by simp [highest, ascii], ?_⟩
    · exact SpaceFree.append (by decide) (decimal_spaceFree _)
    · exact SpaceFree.append (by decide) (decimal_spaceFree _)
  have hfind : [ascii "OK", active, highest].find? (startsWith · (ascii "highest_revision=")) = some highest := rfl
  rw [parseHighestRevision, htokens, hfind]
  change (parseRevision (decimal stats.highestRevision.toNat) 0).1 = _
  rw [parseRevision_decimal]

theorem sendCommand_stats (peer : Node) :
    sendCommand platform protocol now peer (ascii "STATS") =
      (peer, ascii "OK " ++ statsText peer.registry.stats ++ ascii "\n") := rfl

theorem parseCommand_syncPull (lifecycle : LifecycleConfig) (afterRevision limit : UInt64) :
    parseCommand lifecycle now (encodeSyncPullCommand afterRevision limit) =
      { action := .syncPull, registration := { expiresAt := now }, afterRevision := afterRevision, limit := limit } := by
  let after := ascii "after_revision=" ++ decimal afterRevision.toNat
  let bound := ascii "limit=" ++ decimal limit.toNat
  have htext : encodeSyncPullCommand afterRevision limit =
      ascii "SYNC_PULL" ++ [after, bound].flatMap (fun w => space :: w) := by
    have ha : ascii "SYNC_PULL after_revision=" = ascii "SYNC_PULL" ++ space :: ascii "after_revision=" := rfl
    have hl : ascii " limit=" = space :: ascii "limit=" := rfl
    simp [encodeSyncPullCommand, after, bound, ha, hl]
  have htokens : splitTokens (encodeSyncPullCommand afterRevision limit) = [ascii "SYNC_PULL", after, bound] := by
    rw [htext]
    apply splitTokens_words
    simp only [List.forall_mem_cons, List.not_mem_nil, false_imp_iff, implies_true, and_true]
    refine ⟨⟨by decide, by decide⟩, ⟨by simp [after, ascii], ?_⟩, by simp [bound, ascii], ?_⟩
    · exact SpaceFree.append (by decide) (decimal_spaceFree _)
    · exact SpaceFree.append (by decide) (decimal_spaceFree _)
  have hafter (command : ControlCommand) :
      parseField command after = { command with afterRevision := afterRevision } := by
    change parseNumber command (decimal afterRevision.toNat) _ _ = _
    rw [parseNumber_decimal]
  have hbound (command : ControlCommand) : parseField command bound = { command with limit := limit } := by
    change parseNumber command (decimal limit.toNat) _ _ = _
    rw [parseNumber_decimal]
  have hstart : startCommand lifecycle now (ascii "SYNC_PULL") =
      { action := .syncPull, registration := { expiresAt := now } } := rfl
  rw [parseCommand, htokens]
  simp [hstart, parseFields, hafter, hbound, requiredFields]

theorem encodeSyncPullCommand_line (afterRevision limit : UInt64) :
    firstLine (encodeSyncPullCommand afterRevision limit ++ ascii "\n") =
      encodeSyncPullCommand afterRevision limit := by
  apply firstLine_append
  simp only [encodeSyncPullCommand, List.mem_append, not_or]
  exact ⟨⟨⟨by decide, (decimal_spaceFree _).newline_not_mem⟩, by decide⟩, (decimal_spaceFree _).newline_not_mem⟩

theorem sendCommand_syncPull (peer : Node) (afterRevision limit : UInt64) :
    sendCommand platform protocol now peer (encodeSyncPullCommand afterRevision limit) =
      (peer, okResponse (ascii "sync_pull") ++
        agentLines (peer.registry.entriesAfterRevision platform.revisionSort afterRevision limit) ++
          ascii "END\n") := by
  rw [sendCommand, encodeSyncPullCommand_line, handleLine, parseCommand_syncPull]
  simp

theorem firstLine_encodeMergeCommand {r : AgentRecord} (h : WireSafe r) :
    firstLine (encodeMergeCommand r ++ ascii "\n") = encodeMergeCommand r := by
  apply firstLine_append
  rw [encodeMergeCommand_eq]
  exact recordLine_newline_not_mem h _ (by decide)

theorem sendCommand_merge (peer : Node) {r : AgentRecord} (h : WireSafe r) (ha : Addressed r) :
    (sendCommand platform protocol now peer (encodeMergeCommand r)).1 =
      submitEffect platform.sodium protocol.trust peer
        (r.restamp (now + milliseconds protocol.lifecycle.heartbeatTtl)) := by
  rw [sendCommand, firstLine_encodeMergeCommand h, handleLine_node, parseCommand_merge h ha]
  simp [operation, perform]

theorem pushEntries_node (peer : Node) (entries : List AgentRecord)
    (h : ∀ r ∈ entries, WireSafe r ∧ Addressed r) :
    (pushEntries platform protocol now peer entries).1 =
      entries.foldl (fun peer r => submitEffect platform.sodium protocol.trust peer
        (r.restamp (now + milliseconds protocol.lifecycle.heartbeatTtl))) peer := by
  have hfold : ∀ (n : Nat) (peer : Node), (entries.foldl (fun (state : Node × Nat) entry =>
      ((sendCommand platform protocol now state.1 (encodeMergeCommand entry)).1,
        if startsWith (sendCommand platform protocol now state.1 (encodeMergeCommand entry)).2 (ascii "OK") then
          state.2 + 1 else state.2)) (peer, n)).1 =
      entries.foldl (fun peer r => submitEffect platform.sodium protocol.trust peer
        (r.restamp (now + milliseconds protocol.lifecycle.heartbeatTtl))) peer := by
    induction entries with
    | nil => intro n peer; rfl
    | cons r rs ih =>
        intro n peer
        obtain ⟨hr, ha⟩ := h r (by simp)
        rw [List.foldl_cons, List.foldl_cons, ih (fun s hs => h s (by simp [hs])),
          sendCommand_merge platform protocol now peer hr ha]
  exact hfold 0 peer

variable {platform protocol now} {maxEntries : UInt64} {here peer : Node}

def newerEntries (platform : Platform) (maxEntries : UInt64) (here peer : Node) : List AgentRecord :=
  peer.registry.entriesAfterRevision platform.revisionSort (highestRevision here.registry.records) maxEntries

theorem mem_newerEntries {r : AgentRecord} (h : r ∈ newerEntries platform maxEntries here peer) :
    r ∈ peer.registry.records ∧ highestRevision here.registry.records < r.revision :=
  mem_entriesAfterRevision h

theorem syncWithPeer_here (peerNow : TimePoint) (h : ∀ r ∈ peer.registry.records, WireSafe r) :
    (syncWithPeer platform maxEntries now here protocol peerNow peer).here =
      (merge platform.sodium here
        ((newerEntries platform maxEntries here peer).map (fun r => r.restamp (now + minutes 1)))).1 := by
  have hentries : ∀ r ∈ newerEntries platform maxEntries here peer, WireSafe r :=
    fun r hr => h r (mem_newerEntries hr).1
  rw [← parseAgentLines_reply "sync_pull" (by decide) _ hentries now]
  simp only [syncWithPeer, sendCommand_stats, sendCommand_syncPull, mergeResponse]
  rfl

/-- A round that pulls anything is behind its peer and has nothing to push,
so what it pushes does not depend on what it has just pulled. -/
theorem newerEntries_merge {sodium : Option Verifier} {expiresAt : TimePoint} :
    newerEntries platform maxEntries peer
        (merge sodium here
          ((newerEntries platform maxEntries here peer).map (fun r => r.restamp expiresAt))).1 =
      newerEntries platform maxEntries peer here := by
  by_cases hb : highestRevision peer.registry.records ≤ highestRevision here.registry.records
  · have hpull : newerEntries platform maxEntries here peer = [] := entriesAfterRevision_eq_nil.mpr hb
    rw [hpull]
    rfl
  · have hlt := not_le.mp hb
    have hself : newerEntries platform maxEntries peer here = [] := entriesAfterRevision_eq_nil.mpr hlt.le
    rw [hself]
    apply List.eq_nil_iff_forall_not_mem.mpr
    intro r hr
    obtain ⟨hm, hnew⟩ := mem_newerEntries hr
    rcases mem_merge hm with hm | hm
    · exact absurd ((le_highestRevision hm).trans hlt.le) (not_le.mpr hnew)
    · obtain ⟨s, hs, rfl⟩ := List.mem_map.mp hm
      exact absurd (le_highestRevision (mem_newerEntries hs).1) (not_le.mpr hnew)

theorem syncWithPeer_peer (peerNow : TimePoint) (hpeer : ∀ r ∈ peer.registry.records, WireSafe r) :
    (syncWithPeer platform maxEntries now here protocol peerNow peer).peer =
      (pushEntries platform protocol peerNow peer (newerEntries platform maxEntries peer here)).1 := by
  have hround : (syncWithPeer platform maxEntries now here protocol peerNow peer).peer =
      (pushEntries platform protocol peerNow peer (newerEntries platform maxEntries peer
        (syncWithPeer platform maxEntries now here protocol peerNow peer).here)).1 := by
    simp only [syncWithPeer, sendCommand_stats, sendCommand_syncPull, parseHighestRevision_statsText, planPushPull]
    rfl
  rw [hround, syncWithPeer_here peerNow hpeer, newerEntries_merge]

end BeaconNode.SyncRounds
