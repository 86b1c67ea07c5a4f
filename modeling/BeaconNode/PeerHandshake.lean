import BeaconNode.AcceptedLines

namespace BeaconNode.PeerHandshake

open Words TextStream Records Registry AcceptedLines

structure PeerHello where
  nodeId : Bytes := []
  listenPort : UInt16 := 0
  deriving DecidableEq

structure PeerWelcome where
  nodeId : Bytes := []
  registryRevision : UInt64 := 0
  deriving DecidableEq

def fromChars32 (text : Bytes) : Option UInt32 × Bytes :=
  let digits := text.takeWhile isDigit
  if digits = [] then (none, text)
  else if decimalValue digits < 2 ^ 32 then (some (UInt32.ofNat (decimalValue digits)), text.dropWhile isDigit)
  else (none, text.dropWhile isDigit)

def parseU16 (value : Bytes) : Option UInt16 :=
  match fromChars32 value with
  | (none, _) => none
  | (some parsed, rest) => if rest ≠ [] ∨ 65535 < parsed then none else some parsed.toUInt16

/-- A number with text behind it is written to the target, but the callers
then drop the message. -/
def parseU64 (value : Bytes) : Option UInt64 :=
  let result := fromChars value
  if result.rest = [] then result.value else none

def valueAfter (token : Bytes) : Bytes := (splitEquals token).2.getD []

def encodePeerHello (hello : PeerHello) : Bytes :=
  ascii "BEACON_HELLO node_id=" ++ hello.nodeId ++ ascii " listen_port=" ++ decimal hello.listenPort.toNat

def helloField (hello : PeerHello) (token : Bytes) : Option PeerHello :=
  if startsWith token (ascii "node_id=") then some { hello with nodeId := valueAfter token }
  else if startsWith token (ascii "listen_port=") then
    (parseU16 (valueAfter token)).map (fun port => { hello with listenPort := port })
  else some hello

/-- The loop over the tokens behind the verb; none where it returns early. -/
def decodeFields {μ : Type} (verb : Bytes) (field : μ → Bytes → Option μ) (start : μ) (payload : Bytes) : Option μ :=
  match splitTokens payload with
  | [] => none
  | first :: fields => if first ≠ verb then none else fields.foldlM field start

def decodePeerHello (payload : Bytes) : Option PeerHello :=
  match decodeFields (ascii "BEACON_HELLO") helloField {} payload with
  | none => none
  | some hello => if hello.nodeId = [] ∨ hello.listenPort = 0 then none else some hello

def encodePeerWelcome (welcome : PeerWelcome) : Bytes :=
  ascii "BEACON_WELCOME node_id=" ++ welcome.nodeId ++ ascii " registry_revision=" ++
    decimal welcome.registryRevision.toNat

def welcomeField (welcome : PeerWelcome) (token : Bytes) : Option PeerWelcome :=
  if startsWith token (ascii "node_id=") then some { welcome with nodeId := valueAfter token }
  else if startsWith token (ascii "registry_revision=") then
    (parseU64 (valueAfter token)).map (fun revision => { welcome with registryRevision := revision })
  else some welcome

def decodePeerWelcome (payload : Bytes) : Option PeerWelcome :=
  match decodeFields (ascii "BEACON_WELCOME") welcomeField {} payload with
  | none => none
  | some welcome => if welcome.nodeId = [] then none else some welcome

/-- One turn of the responder's loop. A datagram is cut to the buffer, and
what is not a hello gets no answer. -/
def respond (nodeId : Bytes) (registry : AgentRegistry) (datagram : Bytes) : Option Bytes :=
  match decodePeerHello (datagram.take 1024) with
  | none => none
  | some _ => some (encodePeerWelcome ⟨nodeId, registry.stats.highestRevision⟩)

theorem parseU16_decimal (port : UInt16) : parseU16 (decimal port.toNat) = some port := by
  have hdigits : ∀ c ∈ decimal port.toNat, isDigit c = true := fun c hc => decimal_isDigit hc
  have htake : (decimal port.toNat).takeWhile isDigit = decimal port.toNat := by simpa using hdigits
  have hdrop : (decimal port.toNat).dropWhile isDigit = [] := by simpa using hdigits
  have hlt : port.toNat < 2 ^ 16 := port.toNat_lt
  have hparsed : fromChars32 (decimal port.toNat) = (some (UInt32.ofNat port.toNat), []) := by
    rw [fromChars32, htake, hdrop, decimalValue_decimal, if_neg (decimal_ne_nil _), if_pos (by omega)]
  have hfits : ¬ 65535 < UInt32.ofNat port.toNat := by
    rw [UInt32.lt_iff_toNat_lt, UInt32.toNat_ofNat', Nat.mod_eq_of_lt (by omega)]
    change ¬ 65535 < port.toNat
    omega
  rw [parseU16, hparsed]
  simp only [ne_eq, not_true_eq_false, false_or, if_neg hfits, Option.some.injEq]
  apply UInt16.toNat_inj.mp
  rw [UInt32.toNat_toUInt16, UInt32.toNat_ofNat']
  omega

theorem parseU64_decimal (n : UInt64) : parseU64 (decimal n.toNat) = some n := by
  rw [parseU64, fromChars_decimal]
  rfl

theorem valueAfter_append (name value : Bytes) (h : equals ∉ name) : valueAfter (name ++ equals :: value) = value := by
  rw [valueAfter, splitEquals_append name value h, Option.getD_some]

theorem startsWith_field (name value : Bytes) : startsWith (name ++ equals :: value) (name ++ [equals]) = true := by
  rw [startsWith, List.isPrefixOf_iff_prefix]
  exact ⟨value, by simp⟩

theorem spaceFree_field {name value : Bytes} (hn : SpaceFree name) (hv : SpaceFree value) :
    name ++ equals :: value ≠ [] ∧ SpaceFree (name ++ equals :: value) := by
  refine ⟨by simp, hn.append ?_⟩
  intro c hc
  rcases List.mem_cons.mp hc with rfl | hc
  · rfl
  · exact hv c hc

theorem decodeFields_two {μ : Type} {verb name value other number : Bytes} {field : μ → Bytes → Option μ} {start : μ}
    (hverb : verb ≠ [] ∧ SpaceFree verb) (hname : SpaceFree name) (hvalue : SpaceFree value)
    (hother : SpaceFree other) (hnumber : SpaceFree number) :
    decodeFields verb field start
        (verb ++ (space :: (name ++ equals :: value)) ++ (space :: (other ++ equals :: number))) =
      (field start (name ++ equals :: value)).bind (fun message => field message (other ++ equals :: number)) := by
  have hwords : ∀ word ∈ [verb, name ++ equals :: value, other ++ equals :: number], word ≠ [] ∧ SpaceFree word := by
    intro word hword
    simp only [List.mem_cons, List.not_mem_nil, or_false] at hword
    rcases hword with rfl | rfl | rfl
    · exact hverb
    · exact spaceFree_field hname hvalue
    · exact spaceFree_field hother hnumber
  have htokens := splitTokens_words verb _ hwords
  simp only [List.flatMap_cons, List.flatMap_nil, List.append_nil] at htokens
  rw [decodeFields, List.append_assoc, htokens]
  simp only [ne_eq, not_true_eq_false, if_false, List.foldlM_cons, List.foldlM_nil]
  cases field start (name ++ equals :: value) with
  | none => rfl
  | some message => simp

theorem helloField_nodeId (hello : PeerHello) (nodeId : Bytes) :
    helloField hello (ascii "node_id" ++ equals :: nodeId) = some { hello with nodeId := nodeId } := by
  have hname : startsWith (ascii "node_id" ++ equals :: nodeId) (ascii "node_id=") = true := startsWith_field _ _
  rw [helloField, if_pos hname, valueAfter_append _ _ (by decide)]

theorem helloField_listenPort (hello : PeerHello) (port : UInt16) :
    helloField hello (ascii "listen_port" ++ equals :: decimal port.toNat) =
      some { hello with listenPort := port } := by
  have hname : startsWith (ascii "listen_port" ++ equals :: decimal port.toNat) (ascii "listen_port=") = true :=
    startsWith_field _ _
  have hother : startsWith (ascii "listen_port" ++ equals :: decimal port.toNat) (ascii "node_id=") = false := rfl
  rw [helloField, hother, if_neg Bool.false_ne_true, if_pos hname, valueAfter_append _ _ (by decide),
    parseU16_decimal, Option.map_some]

theorem welcomeField_nodeId (welcome : PeerWelcome) (nodeId : Bytes) :
    welcomeField welcome (ascii "node_id" ++ equals :: nodeId) = some { welcome with nodeId := nodeId } := by
  have hname : startsWith (ascii "node_id" ++ equals :: nodeId) (ascii "node_id=") = true := startsWith_field _ _
  rw [welcomeField, if_pos hname, valueAfter_append _ _ (by decide)]

theorem welcomeField_registryRevision (welcome : PeerWelcome) (revision : UInt64) :
    welcomeField welcome (ascii "registry_revision" ++ equals :: decimal revision.toNat) =
      some { welcome with registryRevision := revision } := by
  have hname : startsWith (ascii "registry_revision" ++ equals :: decimal revision.toNat)
      (ascii "registry_revision=") = true := startsWith_field _ _
  have hother : startsWith (ascii "registry_revision" ++ equals :: decimal revision.toNat) (ascii "node_id=") = false :=
    rfl
  rw [welcomeField, hother, if_neg Bool.false_ne_true, if_pos hname, valueAfter_append _ _ (by decide),
    parseU64_decimal, Option.map_some]

theorem decodePeerHello_encode {hello : PeerHello} (hid : hello.nodeId ≠ []) (hs : SpaceFree hello.nodeId)
    (hport : hello.listenPort ≠ 0) : decodePeerHello (encodePeerHello hello) = some hello := by
  have hbytes : encodePeerHello hello =
      ascii "BEACON_HELLO" ++ (space :: (ascii "node_id" ++ equals :: hello.nodeId)) ++
        (space :: (ascii "listen_port" ++ equals :: decimal hello.listenPort.toNat)) := by
    have hid : ascii "BEACON_HELLO node_id=" = ascii "BEACON_HELLO" ++ space :: (ascii "node_id" ++ [equals]) := rfl
    have hport : ascii " listen_port=" = space :: (ascii "listen_port" ++ [equals]) := rfl
    simp [encodePeerHello, hid, hport]
  rw [decodePeerHello, hbytes,
    decodeFields_two (by decide) (by decide) hs (by decide) (decimal_spaceFree _), helloField_nodeId,
    Option.bind_some, helloField_listenPort]
  exact if_neg (not_or.mpr ⟨hid, hport⟩)

theorem decodePeerWelcome_encode {welcome : PeerWelcome} (hid : welcome.nodeId ≠ [])
    (hs : SpaceFree welcome.nodeId) : decodePeerWelcome (encodePeerWelcome welcome) = some welcome := by
  have hbytes : encodePeerWelcome welcome =
      ascii "BEACON_WELCOME" ++ (space :: (ascii "node_id" ++ equals :: welcome.nodeId)) ++
        (space :: (ascii "registry_revision" ++ equals :: decimal welcome.registryRevision.toNat)) := by
    have hid : ascii "BEACON_WELCOME node_id=" = ascii "BEACON_WELCOME" ++ space :: (ascii "node_id" ++ [equals]) := rfl
    have hrevision : ascii " registry_revision=" = space :: (ascii "registry_revision" ++ [equals]) := rfl
    simp [encodePeerWelcome, hid, hrevision]
  rw [decodePeerWelcome, hbytes,
    decodeFields_two (by decide) (by decide) hs (by decide) (decimal_spaceFree _), welcomeField_nodeId,
    Option.bind_some, welcomeField_registryRevision]
  exact if_neg hid

theorem helloField_spaceFree {hello next : PeerHello} {token : Bytes} (ht : SpaceFree token)
    (hs : SpaceFree hello.nodeId) (h : helloField hello token = some next) : SpaceFree next.nodeId := by
  rw [helloField] at h
  split at h
  · cases h
    exact getValue_spaceFree ht
  · split at h
    · obtain ⟨port, -, rfl⟩ := Option.map_eq_some_iff.mp h
      exact hs
    · cases h
      exact hs

theorem foldlM_helloField_spaceFree {tokens : List Bytes} {hello next : PeerHello} (ht : ∀ t ∈ tokens, SpaceFree t)
    (hs : SpaceFree hello.nodeId) (h : tokens.foldlM helloField hello = some next) : SpaceFree next.nodeId := by
  induction tokens generalizing hello with
  | nil =>
      cases h
      exact hs
  | cons token tokens ih =>
      rw [List.foldlM_cons] at h
      obtain ⟨middle, hm, hrest⟩ := Option.bind_eq_some_iff.mp h
      apply ih (fun t htm => ht t (List.mem_cons_of_mem token htm)) _ hrest
      exact helloField_spaceFree (ht token List.mem_cons_self) hs hm

theorem decodeFields_eq_some {μ : Type} {verb payload : Bytes} {field : μ → Bytes → Option μ} {start message : μ}
    (h : decodeFields verb field start payload = some message) :
    ∃ fields, splitTokens payload = verb :: fields ∧ fields.foldlM field start = some message := by
  rw [decodeFields] at h
  split at h
  · cases h
  next first fields htokens =>
    split at h
    · cases h
    next hverb => exact ⟨fields, by rw [htokens, not_not.mp hverb], h⟩

theorem decodePeerHello_accepted {payload : Bytes} {hello : PeerHello} (h : decodePeerHello payload = some hello) :
    hello.nodeId ≠ [] ∧ SpaceFree hello.nodeId ∧ hello.listenPort ≠ 0 := by
  rw [decodePeerHello] at h
  split at h
  · cases h
  next decoded hd =>
    split at h
    · cases h
    next hset =>
      cases h
      rw [not_or] at hset
      obtain ⟨fields, htokens, hfields⟩ := decodeFields_eq_some hd
      exact ⟨hset.1, foldlM_helloField_spaceFree (splitTokens_fields htokens) (by decide) hfields, hset.2⟩

/-- Both messages are read back as they were written, and what is accepted as
a hello is one that reads back. -/
theorem handshake_round_trip :
    (∀ hello : PeerHello, hello.nodeId ≠ [] → SpaceFree hello.nodeId → hello.listenPort ≠ 0 →
      decodePeerHello (encodePeerHello hello) = some hello) ∧
    (∀ welcome : PeerWelcome, welcome.nodeId ≠ [] → SpaceFree welcome.nodeId →
      decodePeerWelcome (encodePeerWelcome welcome) = some welcome) ∧
    ∀ payload hello, decodePeerHello payload = some hello → decodePeerHello (encodePeerHello hello) = some hello := by
  refine ⟨fun _ => decodePeerHello_encode, fun _ => decodePeerWelcome_encode, ?_⟩
  intro payload hello h
  obtain ⟨hid, hs, hport⟩ := decodePeerHello_accepted h
  exact decodePeerHello_encode hid hs hport

example : decodePeerHello (ascii "BEACON_HELLO node_id=a listen_port=65536") = none := by decide

end BeaconNode.PeerHandshake
