import BeaconNode.ListingCalls

namespace BeaconNode.ListedSignatures

open Words TextStream OrderedMap Records Crypto CanonicalPayload Utf8 PythonIdentity PythonClient PythonText
  PythonListing ListedAgents SdkSync ClientCalls ListingCalls
open RecordCodec (WireSafe metadataToken)
open LineProtocol (encodeAgentLine)

/-- What verify_registration raises: a number cannot be printed, or the key
does not have the length of a key. -/
inductive VerifyError
  | value (error : ValueError)
  | publicKey
  deriving DecidableEq

section

variable (interpreter : Interpreter)

/-- The keys of a dict are distinct, so the values are never compared. -/
def sortedItems (metadata : List (Str × Value)) : List (Str × Value) :=
  metadata.insertionSort (fun p q => p.1 ≤ q.1)

def printLine (p : Str × Value) : Except ValueError Str :=
  (textOf interpreter p.2).map (fun text => metadataLine (p.1, text))

/-- An agent that was read from a line may have numbers among its metadata. -/
def canonicalAgentPayload (agent : ListedAgent) : Except ValueError Bytes := do
  let revision ← textOfInt interpreter agent.revision
  let metadata ← (sortedItems agent.metadata).mapM (printLine interpreter)
  let lines := [str "agent_id=" ++ agent.agentId, str "node_id=" ++ agent.nodeId,
    str "endpoint=" ++ agent.endpoint, str "revision=" ++ revision] ++ metadata
  pure (encode ((str "\n").intercalate lines ++ str "\n"))

/-- The verifier is that of the library; it also turns away a signature that
has another length. -/
def verifyRegistration (verify : Verifier) (agent : ListedAgent) : Except VerifyError Bool :=
  if agent.publicKey = [] ∨ agent.signature = [] then .ok false
  else if agent.publicKey.length ≠ cryptoSignPublicKeyBytes then .error .publicKey
  else match canonicalAgentPayload interpreter agent with
    | .error error => .error (.value error)
    | .ok payload =>
        .ok (decide (agent.signature.length = cryptoSignBytes) && verify agent.signature payload agent.publicKey)

structure Prints (agent : ListedAgent) (registration : Registration) : Prop where
  agentId : agent.agentId = registration.agentId
  nodeId : agent.nodeId = registration.nodeId
  endpoint : agent.endpoint = registration.endpoint
  revision : agent.revision = registration.revision
  metadata : List.Forall₂ (fun p q => p.1 = q.1 ∧ textOf interpreter p.2 = .ok q.2) (sortedItems agent.metadata)
    (sorted registration.metadata.items)
  publicKey : agent.publicKey = registration.publicKey
  signature : agent.signature = registration.signature

/-- No text of the registration is taken for a number that is printed as
another text. -/
structure PrintsBack (registration : Registration) : Prop where
  agentId : ReadsAsText interpreter registration.agentId
  nodeId : ReadsAsText interpreter registration.nodeId
  endpoint : ReadsAsText interpreter registration.endpoint
  metadata : ∀ q ∈ registration.metadata.items, ReadsAsText interpreter q.2

end

variable {interpreter : Interpreter} {registration : Registration} {record : AgentRecord} {agent : ListedAgent}

theorem mapM_printLine {metadata : List (Str × Value)} {items : List (Str × Str)}
    (h : List.Forall₂ (fun p q => p.1 = q.1 ∧ textOf interpreter p.2 = .ok q.2) metadata items) :
    metadata.mapM (printLine interpreter) = .ok (items.map metadataLine) := by
  induction h with
  | nil => rfl
  | @cons p q _ _ hpq _ ih =>
      have hline : printLine interpreter p = .ok (metadataLine q) := by
        rw [printLine, hpq.2, hpq.1]
        rfl
      rw [List.mapM_cons, hline, ih]
      rfl

theorem canonicalAgentPayload_prints (h : Prints interpreter agent registration)
    (hrevision : registration.revision < 2 ^ 64) :
    canonicalAgentPayload interpreter agent =
      .ok (PythonIdentity.canonicalAgentPayload registration.toAgentRegistration) := by
  rw [canonicalAgentPayload, h.revision, textOfInt_natCast interpreter hrevision, mapM_printLine h.metadata, h.agentId,
    h.nodeId, h.endpoint]
  rfl

theorem payload_eq (h : EncodesTo registration.toAgentRegistration record) :
    PythonIdentity.canonicalAgentPayload registration.toAgentRegistration = Crypto.canonicalAgentPayload record := by
  have hn : encode (str "\n") = [newline] := by decide
  have ha : encode (str "agent_id=") = ascii "agent_id=" := by decide
  have ho : encode (str "node_id=") = ascii "node_id=" := by decide
  have hp : encode (str "endpoint=") = ascii "endpoint=" := by decide
  have hr : encode (str "revision=") = ascii "revision=" := by decide
  have hm : ((sorted registration.metadata.items).map metadataLine).map encode =
      record.metadata.entries.map metadataToken := by
    rw [entries_eq_sorted h, List.map_map, List.map_map]
    exact List.map_congr_left fun p _ => encode_metadataLine p
  have hlines := canonicalAgentPayload_eq record
  rw [payloadLines, h.agentId, h.nodeId, h.endpoint, h.revision, ← hm] at hlines
  rw [PythonIdentity.canonicalAgentPayload, intercalate_append _ (by simp), encode_flatMap, hn, hlines]
  simp only [List.map_append, List.map_cons, List.map_nil, encode_append, encode_digits, ha, ho, hp, hr]

/-- The verdict on what was read is the engine's on the record, if the bytes
of the payload are. -/
theorem verifyRegistration_of_payload (verify : Verifier) (hk : agent.publicKey = decodeHex record.publicKeyHex)
    (hs : agent.signature = decodeHex record.signatureHex)
    (hpayload : canonicalAgentPayload interpreter agent = .ok (Crypto.canonicalAgentPayload record)) :
    verifyRegistration interpreter verify agent = .ok true ↔ verifyAgentSignature (some verify) record = .valid := by
  rw [verifyAgentSignature_valid, ← hk, ← hs, verifyRegistration, hpayload]
  by_cases hmissing : agent.publicKey = [] ∨ agent.signature = []
  · rw [if_pos hmissing]
    have hlength :
        ¬ (agent.publicKey.length = cryptoSignPublicKeyBytes ∧ agent.signature.length = cryptoSignBytes) := by
      rintro ⟨hpublic, hsigned⟩
      rcases hmissing with he | he
      · rw [he] at hpublic
        cases hpublic
      · rw [he] at hsigned
        cases hsigned
    constructor
    · exact fun h => absurd (Except.ok.inj h) Bool.false_ne_true
    · exact fun h => absurd ⟨h.1, h.2.1⟩ hlength
  · rw [if_neg hmissing]
    by_cases hpublic : agent.publicKey.length = cryptoSignPublicKeyBytes
    · rw [if_neg (not_not.mpr hpublic)]
      simp [hpublic]
    · rw [if_pos hpublic]
      simp [hpublic]

theorem tupleLe_iff_key {metadata : Dict} {p q : Str × Str} (hp : p ∈ metadata.items) (hq : q ∈ metadata.items) :
    tupleLe p q ↔ p.1 ≤ q.1 := by
  constructor
  · rintro (h | ⟨h, -⟩)
    · exact h.le
    · exact h.le
  · intro h
    rcases h.lt_or_eq with hlt | he
    · exact Or.inl hlt
    · have hpq : p = q := List.inj_on_of_nodup_map metadata.nodup hp hq he
      exact Or.inr ⟨he, hpq ▸ le_rfl⟩

theorem sortedItems_map (metadata : Dict) (value : Str × Str → Value) :
    sortedItems (metadata.items.map (fun q => (q.1, value q))) =
      (sorted metadata.items).map (fun q => (q.1, value q)) := by
  refine (List.map_insertionSort tupleLe (fun p q : Str × Value => p.1 ≤ q.1) (fun q => (q.1, value q))
    metadata.items ?_).symm
  exact fun p hp q hq => tupleLe_iff_key hp hq

theorem sortedItems_listed (interpreter : Interpreter) (registration : Registration) :
    sortedItems (listedMetadata interpreter registration) = listedMetadata interpreter registration := by
  have : IsTrans (Str × Value) (fun p q => p.1 ≤ q.1) := ⟨fun _ _ _ => le_trans⟩
  refine List.Pairwise.insertionSort_eq ?_
  rw [listedMetadata, List.pairwise_map]
  exact (sorted_keys registration.metadata).imp fun h => h.le

theorem prints_ofRegistration (interpreter : Interpreter) (registration : Registration) :
    Prints interpreter (ofRegistration registration) registration where
  agentId := rfl
  nodeId := rfl
  endpoint := rfl
  revision := rfl
  metadata := by
    have hsorted := sortedItems_map registration.metadata (fun q => .text q.2)
    change List.Forall₂ _ (sortedItems (registration.metadata.items.map (fun q => (q.1, Value.text q.2)))) _
    rw [hsorted, List.forall₂_map_left_iff, List.forall₂_same]
    exact fun q _ => ⟨rfl, rfl⟩
  publicKey := rfl
  signature := rfl

def reprint (interpreter : Interpreter) (s : Str) : Str :=
  if isDecimal interpreter s then Nat.toDigits 10 (digitsValue interpreter s) else s

theorem textOf_valueOf {name s text : Str} (hk : name ≠ str "public_key") (hs : name ≠ str "signature")
    (h : textOf interpreter (valueOf interpreter (name, s)) = .ok text) : text = reprint interpreter s := by
  rw [valueOf, if_neg (not_or.mpr ⟨hk, hs⟩)] at h
  rw [reprint]
  split at h
  next hd =>
    rw [if_pos hd]
    rw [textOf, textOfInt] at h
    dsimp only at h
    split at h
    · cases h
    · exact (Except.ok.inj h).symm
  next hd =>
    rw [if_neg hd]
    exact (Except.ok.inj h).symm

theorem readsAsText_of_reprint {name s text : Str} (hk : name ≠ str "public_key") (hs : name ≠ str "signature")
    (hr : ¬ Raises interpreter (name, s)) (ht : textOf interpreter (valueOf interpreter (name, s)) = .ok text)
    (h : reprint interpreter s = s) : ReadsAsText interpreter s := by
  rw [textOf_valueOf hk hs ht, h] at ht
  exact (readsAsText_iff interpreter hk hs s).mp ⟨hr, ht⟩

def reprinted (interpreter : Interpreter) (registration : Registration) : Registration :=
  { registration with
    agentId := reprint interpreter registration.agentId
    nodeId := reprint interpreter registration.nodeId
    endpoint := reprint interpreter registration.endpoint
    metadata :=
      { items := registration.metadata.items.map (fun q => (q.1, reprint interpreter q.2))
        nodup := by
          have hnodup := registration.metadata.nodup
          rwa [List.map_map] } }

theorem sorted_reprinted (registration : Registration) :
    sorted (reprinted interpreter registration).metadata.items =
      (sorted registration.metadata.items).map (fun q => (q.1, reprint interpreter q.2)) := by
  refine (List.map_insertionSort tupleLe tupleLe (fun q => (q.1, reprint interpreter q.2))
    registration.metadata.items ?_).symm
  intro p hp q hq
  have hprinted {q : Str × Str} (hq : q ∈ registration.metadata.items) :
      (q.1, reprint interpreter q.2) ∈ (reprinted interpreter registration).metadata.items := List.mem_map_of_mem hq
  rw [tupleLe_iff_key hp hq, tupleLe_iff_key (hprinted hp) (hprinted hq)]

theorem exists_of_mapM_printLine {metadata : List (Str × Value)} {lines : List Str}
    (h : metadata.mapM (printLine interpreter) = .ok lines) :
    ∀ p ∈ metadata, ∃ text, textOf interpreter p.2 = .ok text := by
  induction metadata generalizing lines with
  | nil => exact fun p hp => absurd hp List.not_mem_nil
  | cons p ps ih =>
      rw [List.mapM_cons] at h
      obtain ⟨line, hline, h⟩ := bind_eq_ok.mp h
      obtain ⟨rest, hrest, -⟩ := bind_eq_ok.mp h
      have hfirst : ∃ text, textOf interpreter p.2 = .ok text := by
        rw [printLine] at hline
        cases ht : textOf interpreter p.2 with
        | ok text => exact ⟨text, rfl⟩
        | error error =>
            rw [ht] at hline
            cases hline
      rw [List.forall_mem_cons]
      exact ⟨hfirst, ih hrest⟩

theorem prints_reprinted {payload : Bytes} (h : Listable registration record)
    (hagent : parseAgent interpreter (listedLine registration) = .ok agent)
    (hpayload : canonicalAgentPayload interpreter agent = .ok payload) :
    Prints interpreter agent (reprinted interpreter registration) := by
  obtain ⟨-, ha, hn, he, hm, hr, hk, hs⟩ := (parseAgent_line h agent).mp hagent
  refine ⟨textOf_valueOf (by decide) (by decide) ha, textOf_valueOf (by decide) (by decide) hn,
    textOf_valueOf (by decide) (by decide) he, hr, ?_, hk, hs⟩
  rw [canonicalAgentPayload] at hpayload
  obtain ⟨revision, -, hpayload⟩ := bind_eq_ok.mp hpayload
  obtain ⟨lines, hlines, -⟩ := bind_eq_ok.mp hpayload
  have hprinted := exists_of_mapM_printLine hlines
  rw [hm, sortedItems_listed, listedMetadata] at hprinted ⊢
  rw [sorted_reprinted, List.forall₂_map_left_iff, List.forall₂_map_right_iff, List.forall₂_same]
  intro q hq
  obtain ⟨text, htext⟩ := hprinted _ (List.mem_map_of_mem hq)
  refine ⟨rfl, ?_⟩
  obtain ⟨hpublic, hsigned⟩ := metadata_name_ne q.1
  rw [← textOf_valueOf hpublic hsigned htext]
  exact htext

theorem reprint_spaceFree {s : Str} (h : SpaceFree (encode s)) : SpaceFree (encode (reprint interpreter s)) := by
  rw [reprint]
  split
  · rw [encode_digits]
    exact decimal_spaceFree _
  · exact h

theorem wireSafe_reprinted (h : Listable registration record) (hw : WireSafe record) :
    WireSafe (engineRecord (reprinted interpreter registration).toAgentRegistration) := by
  have hrevision : registration.revision < 2 ^ 64 := h.encodes.revision ▸ record.revision.toNat_lt
  have hnone : SpaceFree [] := fun b hb => absurd hb List.not_mem_nil
  refine ⟨?_, ?_, ?_, ?_, hnone, hnone, ?_⟩
  · intro he
    have hnil : reprint interpreter registration.agentId = [] := encode_injective (t := []) he
    have hne : registration.agentId ≠ [] := by
      intro hempty
      apply hw.agentId_ne
      rw [h.encodes.agentId]
      exact congrArg encode hempty
    rw [reprint] at hnil
    split at hnil
    · exact Nat.toDigits_ne_nil hnil
    · exact hne hnil
  · exact reprint_spaceFree (h.encodes.agentId ▸ hw.agentId)
  · exact reprint_spaceFree (h.encodes.nodeId ▸ hw.nodeId)
  · exact reprint_spaceFree (h.encodes.endpoint ▸ hw.endpoint)
  · intro p hp
    have hencodes : EncodesTo (reprinted interpreter registration).toAgentRegistration _ :=
      engineRecord_encodesTo hrevision
    obtain ⟨q, hq, rfl⟩ := List.mem_map.mp ((hencodes.metadata p).mp hp)
    obtain ⟨s, hs, rfl⟩ := List.mem_map.mp hq
    obtain ⟨hkey, hequals, hvalue⟩ := hw.metadata _ ((h.encodes.metadata _).mpr (List.mem_map_of_mem hs))
    exact ⟨hkey, hequals, reprint_spaceFree hvalue⟩

theorem reprint_eq_of_payload (h : Listable registration record) (hw : WireSafe record)
    (hpayload : PythonIdentity.canonicalAgentPayload (reprinted interpreter registration).toAgentRegistration =
      Crypto.canonicalAgentPayload record) :
    reprint interpreter registration.agentId = registration.agentId ∧
      reprint interpreter registration.nodeId = registration.nodeId ∧
        reprint interpreter registration.endpoint = registration.endpoint ∧
          ∀ q ∈ registration.metadata.items, reprint interpreter q.2 = q.2 := by
  have hrevision : registration.revision < 2 ^ 64 := h.encodes.revision ▸ record.revision.toNat_lt
  have hencodes : EncodesTo (reprinted interpreter registration).toAgentRegistration _ :=
    engineRecord_encodesTo hrevision
  rw [payload_eq hencodes] at hpayload
  have hsame := sameSignedFields_of_payload (wireSafe_reprinted h hw) hw hpayload
  refine ⟨encode_injective (hsame.agentId.trans h.encodes.agentId),
    encode_injective (hsame.nodeId.trans h.encodes.nodeId),
    encode_injective (hsame.endpoint.trans h.encodes.endpoint), fun q hq => ?_⟩
  have hprinted : (q.1, reprint interpreter q.2) ∈ (reprinted interpreter registration).metadata.items :=
    List.mem_map_of_mem hq
  have hentry := (hencodes.metadata _).mpr (List.mem_map_of_mem hprinted)
  rw [hsame.metadata, h.encodes.metadata, mem_map_encodePair] at hentry
  exact congrArg Prod.snd (List.inj_on_of_nodup_map registration.metadata.nodup hentry hq rfl)

theorem PrintsBack.not_raises (h : PrintsBack interpreter registration) (hr : registration.revision < 2 ^ 64)
    {p : Str × Str} (hp : p ∈ listedPairs registration) : ¬ Raises interpreter p := by
  have htext {name value : Str} (hk : name ≠ str "public_key") (hs : name ≠ str "signature")
      (hv : ReadsAsText interpreter value) : ¬ Raises interpreter (name, value) :=
    ((readsAsText_iff interpreter hk hs value).mpr hv).1
  have hhex {name : String} {bytes : Bytes} (hname : str name = str "public_key" ∨ str name = str "signature")
      (hp : p ∈ hexPair name bytes) : ¬ Raises interpreter p := by
    rintro ⟨hk, hs, -⟩
    rw [(mem_hexPair.mp hp).2] at hk hs
    exact hname.elim hk hs
  simp only [listedPairs, fixedPairs, List.mem_append, List.mem_cons, List.not_mem_nil, or_false] at hp
  rcases hp with (rfl | rfl | rfl | hp) | hp | hp | hp
  · exact htext (by decide) (by decide) h.agentId
  · exact htext (by decide) (by decide) h.nodeId
  · exact htext (by decide) (by decide) h.endpoint
  · exact not_raises_revision hr hp
  · exact hhex (Or.inl rfl) hp
  · exact hhex (Or.inr rfl) hp
  · obtain ⟨q, hq, rfl⟩ := metadataPairs_name hp
    obtain ⟨hk, hs⟩ := metadata_name_ne q.1
    exact htext hk hs (h.metadata q hq)

theorem parseAgent_prints (h : Listable registration record) (hp : PrintsBack interpreter registration) :
    ∃ agent, parseAgent interpreter (listedLine registration) = .ok agent ∧ Prints interpreter agent registration := by
  have hrevision : registration.revision < 2 ^ 64 := h.encodes.revision ▸ record.revision.toNat_lt
  have htext {name value : Str} (hk : name ≠ str "public_key") (hs : name ≠ str "signature")
      (hv : ReadsAsText interpreter value) : textOf interpreter (valueOf interpreter (name, value)) = .ok value :=
    ((readsAsText_iff interpreter hk hs value).mpr hv).2
  refine ⟨⟨registration.agentId, registration.nodeId, registration.endpoint, listedMetadata interpreter registration,
    registration.revision, registration.publicKey, registration.signature⟩,
    (parseAgent_line h _).mpr ⟨fun p hm => hp.not_raises hrevision hm, htext (by decide) (by decide) hp.agentId,
      htext (by decide) (by decide) hp.nodeId, htext (by decide) (by decide) hp.endpoint, rfl, rfl, rfl, rfl⟩,
    rfl, rfl, rfl, rfl, ?_, rfl, rfl⟩
  change List.Forall₂ _ (sortedItems (listedMetadata interpreter registration)) _
  rw [sortedItems_listed, listedMetadata, List.forall₂_map_left_iff, List.forall₂_same]
  intro q hq
  obtain ⟨hk, hs⟩ := metadata_name_ne q.1
  exact ⟨rfl, htext hk hs (hp.metadata q (mem_sorted.mp hq))⟩

/-- A reader of a listing computes the bytes that were signed exactly when
every text of the record that is a number is one as it is printed. -/
theorem listed_payload_iff (interpreter : Interpreter) (h : Listable registration record) (hw : WireSafe record)
    {response : Str} (hresponse : encode response = encodeAgentLine record) :
    (∃ agent, parseAgentList interpreter response = .ok [agent] ∧
      canonicalAgentPayload interpreter agent = .ok (Crypto.canonicalAgentPayload record)) ↔
        PrintsBack interpreter registration := by
  have hline : response = listedLine registration ++ ['\n'] :=
    encode_injective (hresponse.trans h.encode_line.symm)
  have hrevision : registration.revision < 2 ^ 64 := h.encodes.revision ▸ record.revision.toNat_lt
  rw [hline]
  constructor
  · rintro ⟨agent, hlist, hpayload⟩
    obtain ⟨a, hparse, hone⟩ := (parseAgentList_line h _).mp hlist
    cases hone
    have hprints := prints_reprinted h hparse hpayload
    rw [canonicalAgentPayload_prints hprints hrevision] at hpayload
    obtain ⟨ha, hn, he, hm⟩ := reprint_eq_of_payload h hw (Except.ok.inj hpayload)
    obtain ⟨hraises, hat, hnt, het, hmetadata, -⟩ := (parseAgent_line h _).mp hparse
    have hfixed {p : Str × Str} (hp : p ∈ fixedPairs registration) : ¬ Raises interpreter p :=
      hraises p (List.mem_append_left _ hp)
    refine ⟨readsAsText_of_reprint (by decide) (by decide) (hfixed (by simp [fixedPairs])) hat ha,
      readsAsText_of_reprint (by decide) (by decide) (hfixed (by simp [fixedPairs])) hnt hn,
      readsAsText_of_reprint (by decide) (by decide) (hfixed (by simp [fixedPairs])) het he, fun q hq => ?_⟩
    have hprinted := hprints.metadata
    rw [hmetadata, sortedItems_listed, listedMetadata, sorted_reprinted, List.forall₂_map_left_iff,
      List.forall₂_map_right_iff, List.forall₂_same] at hprinted
    have hpair : (str "metadata." ++ q.1, q.2) ∈ listedPairs registration := by
      rw [listedPairs_eq]
      exact List.mem_append_right _ (List.mem_map.mpr ⟨q, mem_sorted.mpr hq, rfl⟩)
    obtain ⟨hk, hs⟩ := metadata_name_ne q.1
    exact readsAsText_of_reprint hk hs (hraises _ hpair) (hprinted q (mem_sorted.mpr hq)).2 (hm q hq)
  · intro hp
    obtain ⟨agent, hparse, hprints⟩ := parseAgent_prints h hp
    refine ⟨agent, (parseAgentList_line h _).mpr ⟨agent, hparse, rfl⟩, ?_⟩
    rw [canonicalAgentPayload_prints hprints hrevision, payload_eq h.encodes]

def portRegistration : Registration where
  agentId := str "agent-1"
  nodeId := str "node-1"
  endpoint := str "127.0.0.1:9000"
  metadata := ⟨[(str "zone", str "eu"), (str "port", str "9000")], by decide⟩
  revision := 3
  publicKey := List.replicate 32 7
  signature := List.replicate 64 9

theorem listed_payload_portRegistration :
    ∃ agent, parseAgentList cpython (listedLine portRegistration ++ ['\n']) = .ok [agent] ∧
      canonicalAgentPayload cpython agent = .ok (Crypto.canonicalAgentPayload (keyedRecord portRegistration)) := by
  have hlistable : Listable portRegistration (keyedRecord portRegistration) := by
    apply listable_keyedRecord
    · decide
    · decide
    · decide
    · decide
    · decide
  have hsendable : Sendable portRegistration := by
    constructor
    · decide
    · decide
    · decide
    · decide
    · decide
    · decide
    · decide
    · decide
  have hdigits : Nat.toDigits 10 9000 = str "9000" := by decide
  have hport : ReadsAsText cpython (str "9000") := Or.inr ⟨hdigits ▸ canonical_toDigits 9000, by decide⟩
  refine (listed_payload_iff cpython hlistable hsendable.wireSafe hlistable.encode_line).mpr
    ⟨Or.inl (by decide), Or.inl (by decide), Or.inl (by decide), ?_⟩
  simp only [portRegistration, List.forall_mem_cons]
  exact ⟨Or.inl (by decide), hport, fun q hq => absurd hq List.not_mem_nil⟩

end BeaconNode.ListedSignatures
