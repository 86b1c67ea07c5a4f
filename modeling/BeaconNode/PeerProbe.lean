import BeaconNode.ClientCalls
import BeaconNode.PeerHandshake
import Mathlib.Logic.Relation

namespace BeaconNode.PeerProbe

open Words TextStream Records Registry RecordCodec Utf8 PythonIdentity PythonClient PythonText PythonListing
  ListedAgents ClientCalls PeerHandshake

inductive ProbeError
  | undecodable
  | value (error : ValueError)
  deriving DecidableEq

section

variable (interpreter : Interpreter)

def probePayload (nodeId : Str) (listenPort : Int) : Except ValueError Bytes :=
  (textOfInt interpreter listenPort).map
    (fun port => encode (str "BEACON_HELLO node_id=" ++ nodeId ++ str " listen_port=" ++ port))

/-- Unlike the field parser of the client, this one has no exceptions. -/
def probeToken (fields : Fields) (token : Str) : Except ValueError Fields :=
  if '=' ∉ token then .ok fields
  else
    let (key, value) := splitOnce '=' token
    if isDecimal interpreter value then
      (natOfDigits interpreter value).map (fun n => assign fields key (.int n))
    else .ok (assign fields key (.text value))

def probeFields (line : Str) : Except ValueError Fields :=
  ((PythonText.split line).drop 1).foldlM (probeToken interpreter) []

/-- The prober receives at most 1024 bytes of a response. -/
def readWelcome (address : Str) (datagram : Bytes) : Except ProbeError Status :=
  let response := datagram.take 1024
  match decode response with
  | none => .error .undecodable
  | some line =>
      match probeFields interpreter line with
      | .error error => .error (.value error)
      | .ok fields =>
          .ok (Status.update [(str "ok", .flag ((ascii "BEACON_WELCOME").isPrefixOf response)),
            (str "address", .field (.text address))] (fieldItems fields))

def shownName (name : Str) : Value :=
  if isDecimal interpreter name then .int (digitsValue interpreter name) else .text name

/-- The name of a node that can be probed: one word that fits into a datagram
and is not a number too long to be read. -/
structure Probable (name : Str) : Prop where
  unbroken : Unbroken name
  short : (encode name).length ≤ 960
  readable : ¬ (isDecimal interpreter name = true ∧ TooLong interpreter name.length)

end

/-- A call of probe_peer, with its hello and with how many states the engine
had been in when it was sent. The number stands for the address and port of
its socket. -/
structure ProbeCall where
  socket : Nat
  sentAt : Nat
  payload : Bytes

/-- What a call returned, and how many states the engine had been in then. -/
structure Outcome where
  call : Nat
  returnedAt : Nat
  result : Except ProbeError Status

/-- Hellos and welcomes stay here when they have arrived, so they may be lost,
repeated or overtaken, and may find another call on the socket. The highest
revisions of all states of the engine are kept as history, and the last of
them is that of its registry. -/
structure Network where
  registry : AgentRegistry := {}
  levels : List UInt64 := [0]
  calls : List ProbeCall := []
  waiting : List Nat := []
  welcomes : List (Nat × Bytes) := []
  outcomes : List Outcome := []

/-- The registry changes in any way while datagrams are under way. A socket
that waits is not given to another call. -/
inductive Step (interpreter : Interpreter) (nodeId : Bytes) (address : Str) : Network → Network → Prop
  | change {n : Network} (registry : AgentRegistry) :
      Step interpreter nodeId address n
        { n with registry := registry, levels := n.levels ++ [registry.stats.highestRevision] }
  | probe {n : Network} (socket : Nat) (name : Str) (listenPort : Int) {payload : Bytes}
      (hp : probePayload interpreter name listenPort = .ok payload)
      (hs : ∀ j ∈ n.waiting, ∀ c, n.calls[j]? = some c → c.socket ≠ socket) :
      Step interpreter nodeId address n { n with
        calls := n.calls ++ [⟨socket, n.levels.length - 1, payload⟩]
        waiting := n.waiting ++ [n.calls.length] }
  | answer {n : Network} {c : ProbeCall} (hc : c ∈ n.calls) {response : Bytes}
      (hr : respond nodeId n.registry c.payload = some response) :
      Step interpreter nodeId address n { n with welcomes := n.welcomes ++ [(c.socket, response)] }
  | receive {n : Network} {j : Nat} (hj : j ∈ n.waiting) {c : ProbeCall} (hc : n.calls[j]? = some c)
      {response : Bytes} (hw : (c.socket, response) ∈ n.welcomes) :
      Step interpreter nodeId address n { n with
        waiting := n.waiting.erase j
        outcomes := n.outcomes ++ [⟨j, n.levels.length - 1, readWelcome interpreter address response⟩] }
  | timeout {n : Network} (j : Nat) : Step interpreter nodeId address n { n with waiting := n.waiting.erase j }

/-- The status has the name of the engine, shown as the field parser shows it,
and the revision. -/
structure Welcomed (interpreter : Interpreter) (name address : Str) (revision : UInt64) (status : Status) : Prop where
  ok : status.item (str "ok") = some (.flag true)
  address : status.item (str "address") = some (.field (.text address))
  nodeId : status.item (str "node_id") = some (.field (shownName interpreter name))
  revision : status.item (str "registry_revision") = some (.field (.int revision.toNat))

def HeldBetween (levels : List UInt64) (first last : Nat) (revision : UInt64) : Prop :=
  ∃ k, first ≤ k ∧ k ≤ last ∧ levels[k]? = some revision

/-- The revision was the engine's highest at some time since the call, or an
earlier one on its socket, was made. -/
def HeldSince (n : Network) (o : Outcome) (revision : UInt64) : Prop :=
  ∃ own k c, n.calls[o.call]? = some own ∧ k ≤ o.call ∧ n.calls[k]? = some c ∧ c.socket = own.socket ∧
    HeldBetween n.levels c.sentAt o.returnedAt revision

def Reported (interpreter : Interpreter) (name address : Str) (n : Network) (o : Outcome) : Prop :=
  ∃ status revision, o.result = .ok status ∧ Welcomed interpreter name address revision status ∧
    HeldSince n o revision

structure Truthful (interpreter : Interpreter) (name address : Str) (n : Network) : Prop where
  level : n.levels.getLast? = some n.registry.stats.highestRevision
  sent : ∀ c ∈ n.calls, c.sentAt < n.levels.length
  latest : ∀ j ∈ n.waiting, ∀ own, n.calls[j]? = some own → ∀ k c, n.calls[k]? = some c → c.socket = own.socket → k ≤ j
  welcomes : ∀ w ∈ n.welcomes, ∃ c ∈ n.calls, c.socket = w.1 ∧ ∃ revision,
    HeldBetween n.levels c.sentAt (n.levels.length - 1) revision ∧ w.2 = encodePeerWelcome ⟨encode name, revision⟩
  outcomes : ∀ o ∈ n.outcomes, Reported interpreter name address n o

variable {interpreter : Interpreter} {name address : Str} {n m : Network} {levels : List UInt64} {revision : UInt64}

def welcomeText (name : Str) (revision : UInt64) : Str :=
  str "BEACON_WELCOME" ++ ' ' :: pairToken (str "node_id", name) ++
    ' ' :: pairToken (str "registry_revision", Nat.toDigits 10 revision.toNat)

theorem encode_welcomeText (name : Str) (revision : UInt64) :
    encode (welcomeText name revision) = encodePeerWelcome ⟨encode name, revision⟩ := by
  have hn : encode (str "BEACON_WELCOME node_id=") = ascii "BEACON_WELCOME node_id=" := by decide
  have hr : encode (str " registry_revision=") = ascii " registry_revision=" := by decide
  have he : welcomeText name revision = str "BEACON_WELCOME node_id=" ++ name ++ str " registry_revision=" ++
      Nat.toDigits 10 revision.toNat := by
    simp [welcomeText, pairToken, str]
  rw [he, encode_append, encode_append, encode_append, encode_digits, hn, hr, encodePeerWelcome]

theorem probeToken_pair (fields : Fields) {p : Str × Str} (hk : '=' ∉ p.1)
    (hr : ¬ (isDecimal interpreter p.2 = true ∧ TooLong interpreter p.2.length)) :
    probeToken interpreter fields (pairToken p) = .ok (assign fields p.1 (shownName interpreter p.2)) := by
  have hmem : ¬ '=' ∉ pairToken p := not_not.mpr (by simp [pairToken])
  rw [probeToken, if_neg hmem, pairToken, splitOnce_append hk, shownName]
  dsimp only
  cases hd : isDecimal interpreter p.2 with
  | false => rfl
  | true =>
      have hshort : ¬ TooLong interpreter p.2.length := fun hl => hr ⟨hd, hl⟩
      simp [natOfDigits, hshort, Except.map]

theorem probeFields_welcome (h : Probable interpreter name) (revision : UInt64) :
    probeFields interpreter (welcomeText name revision) =
      .ok [(str "node_id", shownName interpreter name), (str "registry_revision", .int revision.toNat)] := by
  let tokens := [pairToken (str "node_id", name), pairToken (str "registry_revision", Nat.toDigits 10 revision.toNat)]
  have htokens : ∀ w ∈ tokens, w ≠ [] ∧ Unbroken w := by
    have hequals : Unbroken ['='] := by decide
    have htoken {p : Str × Str} (hk : Unbroken p.1) (hv : Unbroken p.2) : pairToken p ≠ [] ∧ Unbroken (pairToken p) :=
      ⟨by simp [pairToken], hk.append (hequals.append hv)⟩
    simp only [tokens, List.forall_mem_cons]
    exact ⟨htoken (by decide : Unbroken (str "node_id")) h.unbroken,
      htoken (by decide : Unbroken (str "registry_revision")) (unbroken_digits _),
      fun w hw => absurd hw List.not_mem_nil⟩
  have hsplit : PythonText.split (welcomeText name revision) = str "BEACON_WELCOME" :: tokens := by
    have hwords := wordsFrom_words (str "BEACON_WELCOME") tokens ⟨by decide, by decide⟩ htokens
    simp only [tokens, List.flatMap_cons, List.flatMap_nil, List.append_nil] at hwords
    rw [PythonText.split, welcomeText, List.append_assoc, ← hwords]
  have hnumber : shownName interpreter (Nat.toDigits 10 revision.toNat) = .int revision.toNat := by
    rw [shownName, if_pos (isDecimal_toDigits _), digitsValue_toDigits]
  rw [probeFields, hsplit, List.drop_one, List.tail_cons, List.foldlM_cons,
    probeToken_pair [] (by decide : '=' ∉ str "node_id") h.readable]
  change (probeToken interpreter _ _ >>= fun fields => List.foldlM (probeToken interpreter) fields []) = _
  rw [probeToken_pair _ (by decide : '=' ∉ str "registry_revision")
    (fun hr => not_tooLong_toDigits interpreter revision.toNat_lt hr.2), hnumber]
  rfl

theorem welcome_length (h : Probable interpreter name) (revision : UInt64) :
    (encodePeerWelcome ⟨encode name, revision⟩).length ≤ 1024 := by
  have hlt := revision.toNat_lt
  have hdigits : (decimal revision.toNat).length ≤ 20 := by
    rw [decimal, List.length_map]
    exact (Nat.length_toDigits_le_iff (by decide) (by decide)).mpr (by omega)
  have hverb : (ascii "BEACON_WELCOME node_id=").length = 23 := by decide
  have hname : (ascii " registry_revision=").length = 19 := by decide
  have hshort := h.short
  simp only [encodePeerWelcome, List.length_append, hverb, hname]
  omega

theorem readWelcome_welcome (h : Probable interpreter name) (address : Str) (revision : UInt64) :
    ∃ status, readWelcome interpreter address (encodePeerWelcome ⟨encode name, revision⟩) = .ok status ∧
      Welcomed interpreter name address revision status := by
  have hprefix : (ascii "BEACON_WELCOME").isPrefixOf (encodePeerWelcome ⟨encode name, revision⟩) = true := rfl
  have hread : readWelcome interpreter address (encodePeerWelcome ⟨encode name, revision⟩) =
      .ok (Status.update [(str "ok", .flag true), (str "address", .field (.text address))]
        (fieldItems [(str "node_id", shownName interpreter name),
          (str "registry_revision", .int revision.toNat)])) := by
    rw [readWelcome, List.take_of_length_le (welcome_length h revision), hprefix, ← encode_welcomeText, decode_encode]
    dsimp only
    rw [probeFields_welcome h]
  have hnodup : ((fieldItems [(str "node_id", shownName interpreter name),
      (str "registry_revision", .int revision.toNat)]).map Prod.fst).Nodup := by
    rw [fieldItems_names]
    exact (by decide : [str "node_id", str "registry_revision"].Nodup)
  have hne : str "ok" ≠ str "node_id" ∧ str "ok" ≠ str "registry_revision" ∧ str "address" ≠ str "ok" ∧
      str "address" ≠ str "node_id" ∧ str "address" ≠ str "registry_revision" ∧
        str "registry_revision" ≠ str "node_id" := by decide
  have hitem (key : Str) : Status.item (Status.update [(str "ok", .flag true), (str "address", .field (.text address))]
      (fieldItems [(str "node_id", shownName interpreter name), (str "registry_revision", .int revision.toNat)])) key =
        if key = str "node_id" then some (.field (shownName interpreter name))
        else if key = str "registry_revision" then some (.field (.int revision.toNat))
        else if key = str "ok" then some (.flag true)
        else if key = str "address" then some (.field (.text address)) else none := by
    rw [item_update hnodup]
    simp only [fieldItems, List.map_cons, List.map_nil, item_cons]
    split
    · rfl
    · split
      · rfl
      · rfl
  refine ⟨_, hread, ?_, ?_, ?_, ?_⟩
  · rw [hitem, if_neg hne.1, if_neg hne.2.1, if_pos rfl]
  · rw [hitem, if_neg hne.2.2.2.1, if_neg hne.2.2.2.2.1, if_neg hne.2.2.1, if_pos rfl]
  · rw [hitem, if_pos rfl]
  · rw [hitem, if_neg hne.2.2.2.2.2, if_pos rfl]

theorem HeldBetween.mono {first last later : Nat} (h : HeldBetween levels first last revision) (hl : last ≤ later)
    (more : List UInt64) : HeldBetween (levels ++ more) first later revision := by
  obtain ⟨k, hfirst, hlast, hk⟩ := h
  exact ⟨k, hfirst, hlast.trans hl, by rw [List.getElem?_append_left (List.getElem?_eq_some_iff.mp hk).1, hk]⟩

theorem Reported.mono {o : Outcome} (h : Reported interpreter name address n o)
    (hlevels : ∃ more, m.levels = n.levels ++ more) (hcalls : ∃ more, m.calls = n.calls ++ more) :
    Reported interpreter name address m o := by
  obtain ⟨status, revision, hresult, hwelcomed, own, k, c, hown, hk, hc, hsocket, hheld⟩ := h
  obtain ⟨moreLevels, hlevels⟩ := hlevels
  obtain ⟨moreCalls, hcalls⟩ := hcalls
  have hkept {j : Nat} {x : ProbeCall} (hx : n.calls[j]? = some x) : m.calls[j]? = some x := by
    rw [hcalls, List.getElem?_append_left (List.getElem?_eq_some_iff.mp hx).1, hx]
  exact ⟨status, revision, hresult, hwelcomed, own, k, c, hkept hown, hk, hkept hc, hsocket,
    hlevels ▸ hheld.mono le_rfl moreLevels⟩

theorem respond_eq {nodeId payload response : Bytes} {registry : AgentRegistry}
    (h : respond nodeId registry payload = some response) :
    response = encodePeerWelcome ⟨nodeId, registry.stats.highestRevision⟩ := by
  rw [respond] at h
  split at h
  · cases h
  · exact (Option.some.inj h).symm

theorem Truthful.levels_pos (h : Truthful interpreter name address n) : 0 < n.levels.length := by
  have hlevel := h.level
  rw [List.length_pos_iff]
  rintro hnil
  rw [hnil] at hlevel
  cases hlevel

theorem getElem?_snoc {α : Type} {l : List α} {x y : α} {k : Nat} (h : (l ++ [x])[k]? = some y) :
    l[k]? = some y ∨ k = l.length ∧ y = x := by
  obtain hlt | hge := lt_or_ge k l.length
  · exact Or.inl (List.getElem?_append_left hlt ▸ h)
  · right
    rw [List.getElem?_append_right hge, List.getElem?_singleton] at h
    split at h
    next heq => exact ⟨by omega, (Option.some.inj h).symm⟩
    next => cases h

theorem truthful_change (h : Truthful interpreter name address n) (registry : AgentRegistry) :
    Truthful interpreter name address
      { n with registry := registry, levels := n.levels ++ [registry.stats.highestRevision] } where
  level := List.getLast?_concat
  sent c hc := by
    have hsent := h.sent c hc
    rw [List.length_append]
    omega
  latest := h.latest
  welcomes w hw := by
    obtain ⟨c, hc, hsocket, revision, hheld, hpayload⟩ := h.welcomes w hw
    exact ⟨c, hc, hsocket, revision, hheld.mono (by rw [List.length_append]; omega) _, hpayload⟩
  outcomes o ho := (h.outcomes o ho).mono ⟨_, rfl⟩ ⟨[], (List.append_nil _).symm⟩

theorem truthful_probe (h : Truthful interpreter name address n) {socket : Nat}
    (hs : ∀ j ∈ n.waiting, ∀ c, n.calls[j]? = some c → c.socket ≠ socket) (payload : Bytes) :
    Truthful interpreter name address { n with
      calls := n.calls ++ [⟨socket, n.levels.length - 1, payload⟩]
      waiting := n.waiting ++ [n.calls.length] } where
  level := h.level
  sent c hc := by
    obtain hc | hc := List.mem_append.mp hc
    · exact h.sent c hc
    · rw [List.mem_singleton.mp hc]
      exact Nat.sub_lt h.levels_pos Nat.one_pos
  latest j hj own hown k c hc hsocket := by
    obtain hc | ⟨rfl, rfl⟩ := getElem?_snoc hc
    · obtain hown | ⟨rfl, rfl⟩ := getElem?_snoc hown
      · obtain hj | hj := List.mem_append.mp hj
        · exact h.latest j hj own hown k c hc hsocket
        · exact List.mem_singleton.mp hj ▸ (List.getElem?_eq_some_iff.mp hc).1.le
      · exact (List.getElem?_eq_some_iff.mp hc).1.le
    · -- the socket that was given away does not wait for another call
      obtain hown | ⟨rfl, -⟩ := getElem?_snoc hown
      · obtain hj | hj := List.mem_append.mp hj
        · exact absurd hsocket.symm (hs j hj own hown)
        · exact (List.mem_singleton.mp hj).ge
      · exact le_rfl
  welcomes w hw := by
    obtain ⟨c, hc, hrest⟩ := h.welcomes w hw
    exact ⟨c, List.mem_append_left _ hc, hrest⟩
  outcomes o ho := (h.outcomes o ho).mono ⟨[], (List.append_nil _).symm⟩ ⟨_, rfl⟩

theorem truthful_answer (h : Truthful interpreter name address n) {c : ProbeCall} (hc : c ∈ n.calls)
    {response : Bytes} (hr : respond (encode name) n.registry c.payload = some response) :
    Truthful interpreter name address { n with welcomes := n.welcomes ++ [(c.socket, response)] } where
  level := h.level
  sent := h.sent
  latest := h.latest
  welcomes w hw := by
    obtain hw | hw := List.mem_append.mp hw
    · exact h.welcomes w hw
    · have hlast := h.level
      rw [List.getLast?_eq_getElem?] at hlast
      have hsent := h.sent c hc
      rw [List.mem_singleton.mp hw]
      exact ⟨c, hc, rfl, _, ⟨n.levels.length - 1, Nat.le_sub_one_of_lt hsent, le_rfl, hlast⟩, respond_eq hr⟩
  outcomes := h.outcomes

theorem truthful_timeout (h : Truthful interpreter name address n) (j : Nat) :
    Truthful interpreter name address { n with waiting := n.waiting.erase j } :=
  { h with latest := fun k hk => h.latest k (List.mem_of_mem_erase hk) }

theorem truthful_receive (hname : Probable interpreter name) (h : Truthful interpreter name address n) {j : Nat}
    (hj : j ∈ n.waiting) {own : ProbeCall} (hown : n.calls[j]? = some own) {response : Bytes}
    (hw : (own.socket, response) ∈ n.welcomes) :
    Truthful interpreter name address { n with
      waiting := n.waiting.erase j
      outcomes := n.outcomes ++ [⟨j, n.levels.length - 1, readWelcome interpreter address response⟩] } :=
  { truthful_timeout h j with
    outcomes := fun o ho => by
      obtain ho | ho := List.mem_append.mp ho
      · exact h.outcomes o ho
      · obtain ⟨c, hc, hsocket, revision, hheld, hpayload⟩ := h.welcomes _ hw
        obtain ⟨k, hk⟩ := List.mem_iff_getElem?.mp hc
        obtain ⟨status, hread, hwelcomed⟩ := readWelcome_welcome hname address revision
        rw [List.mem_singleton.mp ho]
        refine ⟨status, revision, ?_, hwelcomed, own, k, c, hown, h.latest j hj own hown k c hk hsocket, hk, hsocket,
          hheld⟩
        have hresponse : response = encodePeerWelcome ⟨encode name, revision⟩ := hpayload
        rw [hresponse]
        exact hread }

theorem step_truthful (hname : Probable interpreter name) (h : Truthful interpreter name address n)
    (hs : Step interpreter (encode name) address n m) : Truthful interpreter name address m := by
  cases hs with
  | change registry => exact truthful_change h registry
  | probe socket other listenPort hp hs => exact truthful_probe h hs _
  | answer hc hr => exact truthful_answer h hc hr
  | receive hj hc hw => exact truthful_receive hname h hj hc hw
  | timeout j => exact truthful_timeout h j

/-- The arguments of a call that can be answered: a name of one word, and a
port. -/
structure Answerable (prober : Str) (listenPort : Int) : Prop where
  named : prober ≠ []
  word : AsciiSpaceFree prober
  short : (encode prober).length ≤ 960
  port : 1 ≤ listenPort ∧ listenPort ≤ 65535

theorem respond_probe {prober : Str} {listenPort : Int} {payload : Bytes} (h : Answerable prober listenPort)
    (hp : probePayload interpreter prober listenPort = .ok payload) (nodeId : Bytes) (registry : AgentRegistry) :
    respond nodeId registry payload = some (encodePeerWelcome ⟨nodeId, registry.stats.highestRevision⟩) := by
  obtain ⟨port, rfl⟩ : ∃ port : Nat, listenPort = port := ⟨listenPort.toNat, by have := h.port; omega⟩
  have hrange : 1 ≤ port ∧ port ≤ 65535 := by exact_mod_cast h.port
  have hport : (UInt16.ofNat port).toNat = port := by
    rw [UInt16.toNat_ofNat']
    omega
  have hhello : payload = encodePeerHello ⟨encode prober, UInt16.ofNat port⟩ := by
    have hverb : encode (str "BEACON_HELLO node_id=") = ascii "BEACON_HELLO node_id=" := by decide
    have hlisten : encode (str " listen_port=") = ascii " listen_port=" := by decide
    rw [probePayload, textOfInt_natCast interpreter (by omega)] at hp
    have hpayload : encode (str "BEACON_HELLO node_id=" ++ prober ++ str " listen_port=" ++ Nat.toDigits 10 port) =
        payload := Except.ok.inj hp
    rw [← hpayload, encode_append, encode_append, encode_append, encode_digits, hverb, hlisten, encodePeerHello, hport]
  have hdigits : (decimal port).length ≤ 5 := by
    rw [decimal, List.length_map]
    exact (Nat.length_toDigits_le_iff (by decide) (by decide)).mpr (by omega)
  have hfits : payload.length ≤ 1024 := by
    have hverb : (ascii "BEACON_HELLO node_id=").length = 21 := by decide
    have hlisten : (ascii " listen_port=").length = 13 := by decide
    have hshort := h.short
    simp only [hhello, encodePeerHello, hport, List.length_append, hverb, hlisten]
    omega
  have hnamed : encode prober ≠ [] := fun he => h.named (encode_injective (t := []) he)
  have hset : UInt16.ofNat port ≠ 0 := by
    intro hz
    rw [hz] at hport
    change 0 = port at hport
    omega
  rw [respond, List.take_of_length_le hfits, hhello, decodePeerHello_encode hnamed (encode_spaceFree h.word) hset]

/-- The prober and the engine over an unreliable network: whatever a call
returns is the name of the engine and a revision that was the highest in its
registry at some time since the call, or an earlier one on its socket, was
made. A call with sound arguments that still waits can always be answered with
the revision of the moment. -/
theorem probes_report (interpreter : Interpreter) (name address : Str) (hname : Probable interpreter name)
    (registry : AgentRegistry) (n : Network)
    (hn : Relation.ReflTransGen (Step interpreter (encode name) address)
      { registry := registry, levels := [registry.stats.highestRevision] } n) :
    (∀ o ∈ n.outcomes, Reported interpreter name address n o) ∧
      ∀ j ∈ n.waiting, ∀ c prober listenPort, n.calls[j]? = some c → Answerable prober listenPort →
        probePayload interpreter prober listenPort = .ok c.payload →
          ∃ m status, Relation.ReflTransGen (Step interpreter (encode name) address) n m ∧
            ⟨j, n.levels.length - 1, .ok status⟩ ∈ m.outcomes ∧
              Welcomed interpreter name address n.registry.stats.highestRevision status := by
  have htruthful : Truthful interpreter name address n := by
    induction hn with
    | refl =>
        exact ⟨rfl, fun c hc => absurd hc List.not_mem_nil, fun j hj => absurd hj List.not_mem_nil,
          fun w hw => absurd hw List.not_mem_nil, fun o ho => absurd ho List.not_mem_nil⟩
    | tail _ hs ih => exact step_truthful hname ih hs
  refine ⟨htruthful.outcomes, fun j hj c prober listenPort hc ha hp => ?_⟩
  obtain ⟨status, hread, hwelcomed⟩ := readWelcome_welcome hname address n.registry.stats.highestRevision
  let answered : Network :=
    { n with
      welcomes :=
        n.welcomes ++ [(c.socket, encodePeerWelcome ⟨encode name, n.registry.stats.highestRevision⟩)] }
  have hanswer : Step interpreter (encode name) address n answered :=
    .answer (List.mem_of_getElem? hc) (respond_probe ha hp _ n.registry)
  have hreceive : Step interpreter (encode name) address answered _ :=
    .receive (n := answered) hj hc (List.mem_append_right _ (List.mem_singleton_self _))
  refine ⟨_, status, .tail (.single hanswer) hreceive, ?_, hwelcomed⟩
  rw [hread]
  exact List.mem_append_right _ (List.mem_singleton_self _)

def probeHello : Bytes := ascii "BEACON_HELLO node_id=sdk listen_port=43170"

def laterRegistry : AgentRegistry :=
  { records := [{ agentId := ascii "agent-1", nodeId := ascii "n", endpoint := ascii "e:1", revision := 7
                  expiresAt := 0 }] }

def firstWelcome : Bytes := ascii "BEACON_WELCOME node_id=node-1 registry_revision=0"

/-- A call gives up, and its welcome reaches the next one on the socket, after
the registry has changed. -/
theorem probes_report_late : ∃ n : Network, n.outcomes.length = 1 ∧ n.registry.stats.highestRevision = 7 ∧
    ∀ o ∈ n.outcomes, Reported cpython (str "node-1") (str "127.0.0.1:43170") n o := by
  have hname : Probable cpython (str "node-1") := ⟨by decide, by decide, fun h => absurd h.1 (by decide)⟩
  have hhello : probePayload cpython (str "sdk") 43170 = .ok probeHello := by decide +kernel
  have hwelcome : respond (encode (str "node-1")) {} probeHello = some firstWelcome := by decide +kernel
  have h₁ : Relation.ReflTransGen (Step cpython (encode (str "node-1")) (str "127.0.0.1:43170"))
      { registry := {}, levels := [({} : AgentRegistry).stats.highestRevision] } _ :=
    .single (.probe 0 (str "sdk") 43170 hhello fun j hj => absurd hj List.not_mem_nil)
  have h₂ := h₁.tail (.answer (c := ⟨0, 0, probeHello⟩) (List.mem_singleton_self _) hwelcome)
  have h₃ := (h₂.tail (.timeout 0)).tail (.change laterRegistry)
  have h₄ := h₃.tail (.probe 0 (str "sdk") 43170 hhello fun j hj => absurd hj List.not_mem_nil)
  have hwaits : (0, firstWelcome) ∈ [(0, firstWelcome)] := List.mem_singleton_self _
  have h₅ := h₄.tail (.receive (j := 1) (c := ⟨0, 1, probeHello⟩) (List.mem_singleton_self _) rfl hwaits)
  exact ⟨_, rfl, rfl, (probes_report cpython (str "node-1") (str "127.0.0.1:43170") hname _ _ h₅).1⟩

end BeaconNode.PeerProbe
