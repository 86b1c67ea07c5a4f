import BeaconNode.PythonListing

namespace BeaconNode.ListedAgents

open Words Records Crypto KeyedList Utf8 PythonIdentity PythonClient PythonText PythonListing
open LineProtocol (encodeAgentLine)

variable {interpreter : Interpreter} {registration : Registration} {record : AgentRecord}

def listedFields (interpreter : Interpreter) (registration : Registration) : Fields :=
  (listedPairs registration).map (fun p => (p.1, valueOf interpreter p))

theorem parseFields_line (h : Listable registration record) :
    parseFields interpreter (listedLine registration) =
      if ∃ p ∈ listedPairs registration, Raises interpreter p then .error .tooManyDigits
      else .ok (listedFields interpreter registration) := by
  have hsplit : PythonText.split (listedLine registration) =
      str "AGENT" :: (listedPairs registration).map pairToken := by
    apply wordsFrom_words
    · exact ⟨by decide, by decide⟩
    · intro w hw
      obtain ⟨p, hp, rfl⟩ := List.mem_map.mp hw
      exact h.unbroken_token hp
  rw [parseFields, hsplit, List.drop_one, List.tail_cons, foldlM_pairs _ (fun p hp => h.name_equals_free hp)]
  · rfl
  · exact listedPairs_names_nodup registration

theorem listedFields_names (interpreter : Interpreter) (registration : Registration) :
    (listedFields interpreter registration).map Prod.fst = (listedPairs registration).map Prod.fst := by
  rw [listedFields, List.map_map]
  rfl

theorem get_listedFields (interpreter : Interpreter) {p : Str × Str} (h : p ∈ listedPairs registration) :
    get (listedFields interpreter registration) p.1 = some (valueOf interpreter p) := by
  have hnodup : ((listedFields interpreter registration).map Prod.fst).Nodup := by
    rw [listedFields_names]
    exact listedPairs_names_nodup registration
  have hmem : (p.1, valueOf interpreter p) ∈ listedFields interpreter registration :=
    List.mem_map_of_mem (f := fun p => (p.1, valueOf interpreter p)) h
  rw [PythonListing.get, lookup_of_mem hnodup hmem, Option.map_some]

theorem fieldText_fixed (interpreter : Interpreter) {name : String} {value : Str}
    (h : (str name, value) ∈ fixedPairs registration) :
    fieldText interpreter (listedFields interpreter registration) name =
      textOf interpreter (valueOf interpreter (str name, value)) := by
  have hget := get_listedFields interpreter (List.mem_append_left _ h : _ ∈ listedPairs registration)
  rw [fieldText, hget]

theorem isDecimal_toDigits (n : Nat) : isDecimal interpreter (Nat.toDigits 10 n) = true := by
  have hne : Nat.toDigits 10 n ≠ [] := Nat.toDigits_ne_nil
  simp only [isDecimal, ne_eq, hne, not_false_eq_true, decide_true, Bool.true_and, List.all_eq_true]
  intro c hc
  have hrange := (canonical_toDigits n).1 c hc
  rw [PythonText.isDigit, interpreter.ascii_digit c (by omega), if_pos hrange]
  rfl

theorem digitsValue_toDigits (n : Nat) : digitsValue interpreter (Nat.toDigits 10 n) = n := by
  have hprinted := toDigits_digitsValue interpreter (Nat.toDigits_ne_nil (n := n) (b := 10))
    (canonical_toDigits n)
  have hread := congrArg (fun digits => Nat.ofDigitChars 10 digits 0) hprinted
  simpa only [Nat.ofDigitChars_ten_toDigits] using hread

theorem fieldInt_revision (registration : Registration) :
    fieldInt interpreter (listedFields interpreter registration) "revision" = .ok registration.revision := by
  have hget := get_listedFields interpreter
    (by simp [listedPairs, fixedPairs] :
      (str "revision", Nat.toDigits 10 registration.revision) ∈ listedPairs registration)
  have hname : ¬ (str "revision" = str "public_key" ∨ str "revision" = str "signature") := by decide
  have hvalue : valueOf interpreter (str "revision", Nat.toDigits 10 registration.revision) =
      .int registration.revision := by
    rw [valueOf, if_neg hname, if_pos (isDecimal_toDigits _), digitsValue_toDigits]
  rw [fieldInt, hget, hvalue]

theorem fromHex_hex (bytes : Bytes) : fromHex (hex bytes) = .ok bytes := by
  have hdigit : ∀ n < 16, hexDigitValue (Nat.digitChar n) = some n := by decide
  have hspace : ∀ n < 16, isAsciiSpace (Nat.digitChar n) = false := by decide
  induction bytes with
  | nil => rfl
  | cons b bs ih =>
      have hb := b.toNat_lt
      have hcons : hex (b :: bs) = Nat.digitChar (b.toNat / 16) :: Nat.digitChar (b.toNat % 16) :: hex bs := rfl
      have hvalue : 16 * (b.toNat / 16) + b.toNat % 16 = b.toNat := Nat.div_add_mod _ _
      rw [hcons, fromHex, hspace _ (by omega), hdigit _ (by omega), hdigit _ (by omega), ih]
      simp only [Bool.false_eq_true, if_false, Except.map, hvalue, UInt8.ofNat_toNat]

theorem fieldBytes_of_get {fields : Fields} {name : String} {bytes : Bytes}
    (h : get fields (str name) = if bytes = [] then none else some (.text (hex bytes))) :
    fieldBytes interpreter fields name = .ok bytes := by
  have htext : fieldText interpreter fields name = .ok (hex bytes) := by
    rw [fieldText, h]
    by_cases hb : bytes = []
    · rw [hb]
      rfl
    · rw [if_neg hb]
      rfl
  rw [fieldBytes, htext]
  exact fromHex_hex bytes

theorem metadata_name_ne (k : Str) :
    str "metadata." ++ k ≠ str "public_key" ∧ str "metadata." ++ k ≠ str "signature" := by
  have hmetadata := isPrefixOf_append (str "metadata.") k
  constructor
  · intro he
    rw [he] at hmetadata
    exact absurd hmetadata (by decide)
  · intro he
    rw [he] at hmetadata
    exact absurd hmetadata (by decide)

theorem hexPair_of_name {p : Str × Str} (h : p ∈ listedPairs registration) :
    (p.1 = str "public_key" → p ∈ hexPair "public_key" registration.publicKey) ∧
      (p.1 = str "signature" → p ∈ hexPair "signature" registration.signature) := by
  have hfixed : ∀ name ∈ (fixedPairs registration).map Prod.fst, name ≠ str "public_key" ∧ name ≠ str "signature" := by
    simp only [fixedPairs, List.map_cons, List.map_nil]
    decide
  have hhex {name : String} {bytes : Bytes} (hp : p ∈ hexPair name bytes) : p.1 = str name :=
    congrArg Prod.fst (mem_hexPair.mp hp).2
  simp only [listedPairs, List.mem_append] at h
  rcases h with h | h | h | h
  · obtain ⟨hk, hs⟩ := hfixed _ (List.mem_map_of_mem h)
    exact ⟨fun he => absurd he hk, fun he => absurd he hs⟩
  · refine ⟨fun _ => h, fun he => ?_⟩
    exact absurd (he.symm.trans (hhex h)) (by decide)
  · refine ⟨fun he => ?_, fun _ => h⟩
    exact absurd (he.symm.trans (hhex h)) (by decide)
  · obtain ⟨q, -, rfl⟩ := metadataPairs_name h
    obtain ⟨hk, hs⟩ := metadata_name_ne q.1
    exact ⟨fun he => absurd he hk, fun he => absurd he hs⟩

theorem get_hexPair {name : String} {bytes : Bytes} (hname : str name = str "public_key" ∨ str name = str "signature")
    (hsub : ∀ p ∈ hexPair name bytes, p ∈ listedPairs registration)
    (honly : ∀ p ∈ listedPairs registration, p.1 = str name → p ∈ hexPair name bytes) :
    get (listedFields interpreter registration) (str name) =
      if bytes = [] then none else some (.text (hex bytes)) := by
  by_cases hb : bytes = []
  · rw [if_pos hb, PythonListing.get, Option.map_eq_none_iff, lookup_eq_none]
    intro q hq he
    obtain ⟨p, hp, rfl⟩ := List.mem_map.mp hq
    exact (mem_hexPair.mp (honly p hp he)).1 hb
  · have hmem : (str name, hex bytes) ∈ hexPair name bytes := mem_hexPair.mpr ⟨hb, rfl⟩
    rw [if_neg hb]
    refine (get_listedFields interpreter (hsub _ hmem)).trans ?_
    rw [valueOf, if_pos hname]

theorem fieldBytes_publicKey (registration : Registration) :
    fieldBytes interpreter (listedFields interpreter registration) "public_key" = .ok registration.publicKey := by
  apply fieldBytes_of_get
  apply get_hexPair (Or.inl rfl)
  · intro p hp
    simp [listedPairs, hp]
  · intro p hp
    exact (hexPair_of_name hp).1

theorem fieldBytes_signature (registration : Registration) :
    fieldBytes interpreter (listedFields interpreter registration) "signature" = .ok registration.signature := by
  apply fieldBytes_of_get
  apply get_hexPair (Or.inr rfl)
  · intro p hp
    simp [listedPairs, hp]
  · intro p hp
    exact (hexPair_of_name hp).2

theorem metadataOf_listedFields (interpreter : Interpreter) (registration : Registration) :
    metadataOf (listedFields interpreter registration) =
      (sorted registration.metadata.items).map
        (fun q => (q.1, valueOf interpreter (str "metadata." ++ q.1, q.2))) := by
  have hhead : ((headPairs registration).map (fun p => (p.1, valueOf interpreter p))).filter
      (fun p => (str "metadata.").isPrefixOf p.1) = [] := by
    rw [List.filter_eq_nil_iff]
    intro q hq
    obtain ⟨p, hp, rfl⟩ := List.mem_map.mp hq
    rw [fixedNames_not_metadata _ ((headPairs_names registration).subset (List.mem_map_of_mem hp))]
    exact Bool.false_ne_true
  have hmetadata : ((metadataPairs registration).map (fun p => (p.1, valueOf interpreter p))).filter
      (fun p => (str "metadata.").isPrefixOf p.1) =
        (metadataPairs registration).map (fun p => (p.1, valueOf interpreter p)) := by
    rw [List.filter_eq_self]
    intro q hq
    obtain ⟨p, hp, rfl⟩ := List.mem_map.mp hq
    obtain ⟨r, -, rfl⟩ := metadataPairs_name hp
    exact isPrefixOf_append _ _
  rw [metadataOf, listedFields, listedPairs_eq, List.map_append, List.filter_append, hhead, hmetadata,
    List.nil_append, metadataPairs, List.map_map, List.map_map]
  apply List.map_congr_left
  intro q _
  rfl

theorem splitlines_line (h : Listable registration record) :
    splitlines (listedLine registration ++ ['\n']) = [listedLine registration] := by
  have hboundary : ∀ c ∈ listedLine registration, isLineBoundary c = false := by
    intro c hc
    rcases List.mem_append.mp hc with hc | hc
    · exact (by decide : Unbroken (str "AGENT")).isLineBoundary hc
    · obtain ⟨w, hw, hc⟩ := List.mem_flatMap.mp hc
      obtain ⟨p, hp, rfl⟩ := List.mem_map.mp hw
      rcases List.mem_cons.mp hc with rfl | hc
      · decide
      · exact (h.unbroken_token hp).2.isLineBoundary hc
  exact linesFrom_line [] (listedLine registration) hboundary []

theorem bind_eq_ok {α β : Type} {x : Except ValueError α} {f : α → Except ValueError β} {b : β} :
    x >>= f = .ok b ↔ ∃ a, x = .ok a ∧ f a = .ok b := by
  cases x with
  | error e => simp [bind, Except.bind]
  | ok a => simp [bind, Except.bind]

theorem parseAgentList_line (h : Listable registration record) (agents : List ListedAgent) :
    parseAgentList interpreter (listedLine registration ++ ['\n']) = .ok agents ↔
      ∃ agent, parseAgent interpreter (listedLine registration) = .ok agent ∧ agents = [agent] := by
  have hagent : (str "AGENT ").isPrefixOf (listedLine registration) = true :=
    isPrefixOf_append (str "AGENT ") _
  rw [parseAgentList, splitlines_line h, List.filter_cons_of_pos hagent, List.filter_nil, List.mapM_cons,
    List.mapM_nil]
  simp only [bind_eq_ok, pure, Except.pure, Except.ok.injEq, exists_eq_left', eq_comm (a := agents)]

def listedMetadata (interpreter : Interpreter) (registration : Registration) : List (Str × Value) :=
  (sorted registration.metadata.items).map (fun q => (q.1, valueOf interpreter (str "metadata." ++ q.1, q.2)))

/-- A line is read unless a number in it is too long, and only the three
texts and the values of the metadata may differ from what was listed. -/
theorem parseAgent_line (h : Listable registration record) (agent : ListedAgent) :
    parseAgent interpreter (listedLine registration) = .ok agent ↔
      (∀ p ∈ listedPairs registration, ¬ Raises interpreter p) ∧
        textOf interpreter (valueOf interpreter (str "agent_id", registration.agentId)) = .ok agent.agentId ∧
        textOf interpreter (valueOf interpreter (str "node_id", registration.nodeId)) = .ok agent.nodeId ∧
        textOf interpreter (valueOf interpreter (str "endpoint", registration.endpoint)) = .ok agent.endpoint ∧
        agent.metadata = listedMetadata interpreter registration ∧ agent.revision = registration.revision ∧
        agent.publicKey = registration.publicKey ∧ agent.signature = registration.signature := by
  rw [parseAgent, parseFields_line h]
  by_cases hraises : ∃ p ∈ listedPairs registration, Raises interpreter p
  · rw [if_pos hraises]
    have hnot : ¬ ∀ p ∈ listedPairs registration, ¬ Raises interpreter p := by
      obtain ⟨p, hp, hr⟩ := hraises
      exact fun hall => hall p hp hr
    simp only [hnot, false_and, iff_false]
    exact nofun
  · rw [if_neg hraises]
    push Not at hraises
    have hagent := fieldText_fixed interpreter
      (by simp [fixedPairs] : (str "agent_id", registration.agentId) ∈ fixedPairs registration)
    have hnode := fieldText_fixed interpreter
      (by simp [fixedPairs] : (str "node_id", registration.nodeId) ∈ fixedPairs registration)
    have hendpoint := fieldText_fixed interpreter
      (by simp [fixedPairs] : (str "endpoint", registration.endpoint) ∈ fixedPairs registration)
    simp only [bind_eq_ok, Except.ok.injEq, exists_eq_left', hagent, hnode, hendpoint, fieldInt_revision,
      fieldBytes_publicKey, fieldBytes_signature, metadataOf_listedFields, pure, Except.pure]
    constructor
    · rintro ⟨agentId, ha, nodeId, hn, endpoint, he, rfl⟩
      exact ⟨hraises, ha, hn, he, rfl, rfl, rfl, rfl⟩
    · rintro ⟨-, ha, hn, he, hm, hr, hk, hs⟩
      refine ⟨agent.agentId, ha, agent.nodeId, hn, agent.endpoint, he, ?_⟩
      rw [← hr, ← hk, ← hs]
      exact congrArg (fun metadata => ListedAgent.mk _ _ _ metadata _ _ _) hm.symm

theorem not_raises_revision {p : Str × Str} (hr : registration.revision < 2 ^ 64)
    (hp : p = (str "revision", Nat.toDigits 10 registration.revision)) : ¬ Raises interpreter p := by
  subst hp
  rintro ⟨-, -, -, hlimit, hlong⟩
  have hdigits : (Nat.toDigits 10 registration.revision).length ≤ 20 :=
    (Nat.length_toDigits_le_iff (by decide) (by decide)).mpr (by omega)
  rcases interpreter.maxStrDigits_large with hzero | hlarge
  · exact hlimit hzero
  · change interpreter.maxStrDigits < (Nat.toDigits 10 registration.revision).length at hlong
    omega

structure SameRegistration (agent : ListedAgent) (registration : Registration) : Prop where
  agentId : agent.agentId = registration.agentId
  nodeId : agent.nodeId = registration.nodeId
  endpoint : agent.endpoint = registration.endpoint
  revision : agent.revision = registration.revision
  metadata : ∀ p, p ∈ agent.metadata ↔ p ∈ registration.metadata.items.map (fun q => (q.1, Value.text q.2))
  publicKey : agent.publicKey = registration.publicKey
  signature : agent.signature = registration.signature

def ReadBack (interpreter : Interpreter) (registration : Registration) (response : Str) : Prop :=
  ∃ agent, parseAgentList interpreter response = .ok [agent] ∧ SameRegistration agent registration

/-- No text of the registration is mistaken for another by way of a number. -/
structure Unambiguous (interpreter : Interpreter) (registration : Registration) : Prop where
  agentId : ReadsAsText interpreter registration.agentId
  nodeId : ReadsAsText interpreter registration.nodeId
  endpoint : ReadsAsText interpreter registration.endpoint
  metadata : ∀ q ∈ registration.metadata.items, isDecimal interpreter q.2 = false

theorem valueOf_metadata (q : Str × Str) :
    valueOf interpreter (str "metadata." ++ q.1, q.2) =
      if isDecimal interpreter q.2 then .int (digitsValue interpreter q.2) else .text q.2 := by
  rw [valueOf, if_neg (not_or.mpr (metadata_name_ne q.1))]

theorem listedMetadata_texts_iff :
    (∀ p, p ∈ listedMetadata interpreter registration ↔
      p ∈ registration.metadata.items.map (fun q => (q.1, Value.text q.2))) ↔
        ∀ q ∈ registration.metadata.items, isDecimal interpreter q.2 = false := by
  constructor
  · intro h q hq
    have hlisted : (q.1, valueOf interpreter (str "metadata." ++ q.1, q.2)) ∈
        listedMetadata interpreter registration := List.mem_map.mpr ⟨q, mem_sorted.mpr hq, rfl⟩
    obtain ⟨r, -, he⟩ := List.mem_map.mp ((h _).mp hlisted)
    rw [valueOf_metadata] at he
    by_contra hd
    rw [Bool.not_eq_false] at hd
    rw [if_pos hd] at he
    cases congrArg Prod.snd he
  · intro h p
    have htexts : listedMetadata interpreter registration =
        (sorted registration.metadata.items).map (fun q => (q.1, Value.text q.2)) := by
      apply List.map_congr_left
      intro q hq
      have hd : ¬ isDecimal interpreter q.2 = true := by
        rw [h q (mem_sorted.mp hq)]
        exact Bool.false_ne_true
      rw [valueOf_metadata, if_neg hd]
    rw [htexts]
    exact ((List.perm_insertionSort tupleLe registration.metadata.items).map _).mem_iff

theorem Unambiguous.not_raises (h : Unambiguous interpreter registration) (hr : registration.revision < 2 ^ 64)
    {p : Str × Str} (hp : p ∈ listedPairs registration) : ¬ Raises interpreter p := by
  have hhex {name : String} {bytes : Bytes} (hname : str name = str "public_key" ∨ str name = str "signature")
      (hp : p ∈ hexPair name bytes) : ¬ Raises interpreter p := by
    rintro ⟨hk, hs, -⟩
    rw [(mem_hexPair.mp hp).2] at hk hs
    exact hname.elim hk hs
  simp only [listedPairs, fixedPairs, List.mem_append, List.mem_cons, List.not_mem_nil, or_false] at hp
  rcases hp with (rfl | rfl | rfl | hp) | hp | hp | hp
  · exact ((readsAsText_iff interpreter (by decide) (by decide) _).mpr h.agentId).1
  · exact ((readsAsText_iff interpreter (by decide) (by decide) _).mpr h.nodeId).1
  · exact ((readsAsText_iff interpreter (by decide) (by decide) _).mpr h.endpoint).1
  · exact not_raises_revision hr hp
  · exact hhex (Or.inl rfl) hp
  · exact hhex (Or.inr rfl) hp
  · obtain ⟨q, hq, rfl⟩ := metadataPairs_name hp
    rintro ⟨-, -, hd, -⟩
    exact Bool.false_ne_true ((h.metadata q hq).symm.trans hd)

/-- The SDK reads back what the engine lists exactly when no text of the
record is taken for a number that is another text. -/
theorem listed_read_back_iff (interpreter : Interpreter) (h : Listable registration record) {response : Str}
    (hresponse : encode response = encodeAgentLine record) :
    ReadBack interpreter registration response ↔ Unambiguous interpreter registration := by
  have hline : response = listedLine registration ++ ['\n'] :=
    encode_injective (hresponse.trans h.encode_line.symm)
  have hrevision : registration.revision < 2 ^ 64 := h.encodes.revision ▸ record.revision.toNat_lt
  have hagent := readsAsText_iff interpreter (by decide : str "agent_id" ≠ str "public_key") (by decide)
    registration.agentId
  have hnode := readsAsText_iff interpreter (by decide : str "node_id" ≠ str "public_key") (by decide)
    registration.nodeId
  have hendpoint := readsAsText_iff interpreter (by decide : str "endpoint" ≠ str "public_key") (by decide)
    registration.endpoint
  constructor
  · rintro ⟨agent, hlist, hsame⟩
    rw [hline] at hlist
    obtain ⟨a, hparse, hone⟩ := (parseAgentList_line h _).mp hlist
    cases hone
    obtain ⟨hraises, ha, hn, he, hm, -, -, -⟩ := (parseAgent_line h _).mp hparse
    have hfixed {p : Str × Str} (hp : p ∈ fixedPairs registration) : ¬ Raises interpreter p :=
      hraises p (List.mem_append_left _ hp)
    refine ⟨hagent.mp ⟨hfixed (by simp [fixedPairs]), ?_⟩, hnode.mp ⟨hfixed (by simp [fixedPairs]), ?_⟩,
      hendpoint.mp ⟨hfixed (by simp [fixedPairs]), ?_⟩, ?_⟩
    · rw [ha, hsame.agentId]
    · rw [hn, hsame.nodeId]
    · rw [he, hsame.endpoint]
    · rw [← listedMetadata_texts_iff, ← hm]
      exact hsame.metadata
  · intro hu
    refine ⟨⟨registration.agentId, registration.nodeId, registration.endpoint, listedMetadata interpreter registration,
      registration.revision, registration.publicKey, registration.signature⟩, ?_, ?_⟩
    · rw [hline, parseAgentList_line h]
      refine ⟨_, (parseAgent_line h _).mpr ⟨fun p hp => hu.not_raises hrevision hp, ?_⟩, rfl⟩
      exact ⟨(hagent.mpr hu.agentId).2, (hnode.mpr hu.nodeId).2, (hendpoint.mpr hu.endpoint).2, rfl, rfl, rfl, rfl⟩
    · exact ⟨rfl, rfl, rfl, rfl, listedMetadata_texts_iff.mpr hu.metadata, rfl, rfl⟩

theorem listable_keyedRecord (hrevision : registration.revision < 2 ^ 64) (hagent : Unbroken registration.agentId)
    (hnode : Unbroken registration.nodeId) (hendpoint : Unbroken registration.endpoint)
    (hmetadata : ∀ p ∈ registration.metadata.items, Unbroken p.1 ∧ '=' ∉ p.1 ∧ Unbroken p.2) :
    Listable registration (keyedRecord registration) where
  encodes := { engineRecord_encodesTo hrevision with }
  publicKeyHex := lowerHex_encodeHex _
  signatureHex := lowerHex_encodeHex _
  publicKey := (decodeHex_encodeHex _).symm
  signature := (decodeHex_encodeHex _).symm
  agentId_unbroken := hagent
  nodeId_unbroken := hnode
  endpoint_unbroken := hendpoint
  metadata := hmetadata

theorem listed_read_back_taggedRegistration :
    ReadBack cpython taggedRegistration (listedLine taggedRegistration ++ ['\n']) := by
  have hlistable : Listable taggedRegistration (keyedRecord taggedRegistration) := by
    apply listable_keyedRecord
    · decide
    · decide
    · decide
    · decide
    · decide
  refine (listed_read_back_iff cpython hlistable hlistable.encode_line).mpr ⟨Or.inl ?_, Or.inl ?_, Or.inl ?_, ?_⟩
  · decide
  · decide
  · decide
  · decide

def numberedRegistration : Registration where
  agentId := str "007"
  nodeId := str "node-1"
  endpoint := str "127.0.0.1:9000"
  metadata := ⟨[], List.nodup_nil⟩
  revision := 7

theorem listed_not_read_back :
    Listable numberedRegistration (keyedRecord numberedRegistration) ∧
      encode (listedLine numberedRegistration ++ ['\n']) = encodeAgentLine (keyedRecord numberedRegistration) ∧
      ¬ ReadBack cpython numberedRegistration (listedLine numberedRegistration ++ ['\n']) := by
  have hlistable : Listable numberedRegistration (keyedRecord numberedRegistration) := by
    apply listable_keyedRecord
    · decide
    · decide
    · decide
    · decide
    · nofun
  refine ⟨hlistable, hlistable.encode_line, ?_⟩
  rintro ⟨agent, hlist, hsame⟩
  have hread : parseAgentList cpython (listedLine numberedRegistration ++ ['\n']) =
      .ok [⟨str "7", str "node-1", str "127.0.0.1:9000", [], 7, [], []⟩] := by rfl
  rw [hread] at hlist
  cases hlist
  exact absurd hsame.agentId (by decide)

end BeaconNode.ListedAgents
