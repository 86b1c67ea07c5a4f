import BeaconNode.SecurePath
import BeaconNode.Crypto

namespace BeaconNode.StoredIdentity

open Words TextStream OrderedMap Crypto SecurePath

structure NodeIdentity where
  nodeId : Bytes
  publicKeyHex : Bytes
  privateKeyPath : Bytes
  deriving DecidableEq

structure Ed25519Keypair where
  publicKey : Bytes := []
  secretKey : Bytes := []

def cryptoSignSecretKeyBytes : Nat := 64

/-- What crypto_sign_keypair leaves in the two buffers. Their sizes are fixed
when they are allocated. -/
structure SodiumKeypair extends Ed25519Keypair where
  publicKey_length : publicKey.length = cryptoSignPublicKeyBytes
  secretKey_length : secretKey.length = cryptoSignSecretKeyBytes

/-- A build without libsodium has no keypair to give. -/
def generateEd25519Keypair (sodium : Option SodiumKeypair) : Ed25519Keypair :=
  match sodium with
  | none => {}
  | some keypair => keypair.toEd25519Keypair

def expectedKeySize : Nat := 64

/-- The value of the first line that has the key before its first equals
sign. -/
def readValue (content key : Bytes) : Bytes :=
  ((getLines content).findSome? (fun line =>
    match splitEquals line with
    | (_, none) => none
    | (name, some value) => if name = key then some value else none)).getD []

def filename (path : Bytes) : Bytes := (path.reverse.takeWhile (· ≠ slash)).reverse

/-- The path before the separators in front of the file name. Only a root
keeps its slash. -/
def parentPath (path : Bytes) : Bytes :=
  let directory := path.reverse.dropWhile (· ≠ slash)
  let parent := (directory.dropWhile (· = slash)).reverse
  if parent = [] ∧ directory ≠ [] then [slash] else parent

def keyPath (configPath : Bytes) : Bytes := configPath ++ ascii ".key"

def configText (identity : NodeIdentity) : Bytes :=
  ascii "node_id=" ++ identity.nodeId ++ ascii "\n" ++
  ascii "public_key_hex=" ++ identity.publicKeyHex ++ ascii "\n" ++
  ascii "private_key_path=" ++ identity.privateKeyPath ++ ascii "\n"

abbrev Files := SortedMap Bytes Bytes

/-- The path of the identity file, which ends in the name of a file. -/
structure IdentityStore where
  path : Bytes
  named : filename path ≠ [] ∧ filename path ≠ ascii "." ∧ filename path ≠ ascii ".."

namespace IdentityStore

def configPath (paths : PathOps) (store : IdentityStore) : Except Bytes Bytes :=
  let baseDir := parentPath store.path
  resolveSecurePath paths (if baseDir = [] then ascii "." else baseDir) (filename store.path)

/-- The files and what the call returns or throws. Every file can be read and
written. The permissions of the key file are left out. -/
def loadOrCreate (paths : PathOps) (sodium : Option SodiumKeypair) (store : IdentityStore) (files : Files)
    (nodeId : Bytes) : Files × Except Bytes NodeIdentity :=
  match store.configPath paths with
  | .error message => (files, .error message)
  | .ok configPath =>
      match files.find configPath with
      | some content =>
          match files.find (keyPath configPath) with
          | none =>
              (files, .error (ascii "Cannot access key file: " ++ keyPath configPath ++
                ascii " (No such file or directory)"))
          | some key =>
              if key.length ≠ expectedKeySize then
                (files, .error (ascii "Key file " ++ keyPath configPath ++ ascii " has invalid size (" ++
                  decimal key.length ++ ascii " bytes), expected " ++ decimal expectedKeySize ++ ascii " bytes"))
              else
                (files, .ok ⟨readValue content (ascii "node_id"), readValue content (ascii "public_key_hex"),
                  keyPath configPath⟩)
      | none =>
          let keypair := generateEd25519Keypair sodium
          let identity : NodeIdentity := ⟨nodeId, encodeHex keypair.publicKey, keyPath configPath⟩
          ((files.insert (keyPath configPath) keypair.secretKey).insert configPath (configText identity), .ok identity)

end IdentityStore

open IdentityStore

/-- A start of the engine, with the node id of its configuration and the
keypair it would generate. -/
structure Start where
  sodium : Option SodiumKeypair
  nodeId : Bytes

def loadAll (paths : PathOps) (store : IdentityStore) (files : Files) : List Start → List (Except Bytes NodeIdentity)
  | [] => []
  | start :: starts =>
      let (files, result) := store.loadOrCreate paths start.sodium files start.nodeId
      result :: loadAll paths store files starts

theorem readValue_cons {line rest key name value : Bytes} (hline : newline ∉ line)
    (h : splitEquals line = (name, some value)) :
    readValue (line ++ newline :: rest) key = if name = key then value else readValue rest key := by
  rw [readValue, getLines, linesFrom_line [] line rest hline, List.nil_append, List.findSome?_cons, h]
  by_cases hk : name = key
  · simp [hk]
  · simp [hk, readValue, getLines]

theorem newline_not_mem_line {name value : Bytes} (hn : newline ∉ name) (hv : newline ∉ value) :
    newline ∉ name ++ equals :: value := by
  intro h
  rcases List.mem_append.mp h with h | h
  · exact hn h
  · rcases List.mem_cons.mp h with h | h
    · exact absurd h (by decide)
    · exact hv h

theorem readValue_configText {identity : NodeIdentity} (hid : newline ∉ identity.nodeId)
    (hkey : newline ∉ identity.publicKeyHex) :
    readValue (configText identity) (ascii "node_id") = identity.nodeId ∧
      readValue (configText identity) (ascii "public_key_hex") = identity.publicKeyHex := by
  have htext : configText identity =
      (ascii "node_id" ++ equals :: identity.nodeId) ++ newline ::
        ((ascii "public_key_hex" ++ equals :: identity.publicKeyHex) ++ newline ::
          (ascii "private_key_path=" ++ identity.privateKeyPath ++ ascii "\n")) := by
    have hid : ascii "node_id=" = ascii "node_id" ++ [equals] := rfl
    have hkey : ascii "public_key_hex=" = ascii "public_key_hex" ++ [equals] := rfl
    have hline : ascii "\n" = [newline] := rfl
    simp [configText, hid, hkey, hline]
  have hfirst : newline ∉ ascii "node_id" ++ equals :: identity.nodeId := newline_not_mem_line (by decide) hid
  have hsecond : newline ∉ ascii "public_key_hex" ++ equals :: identity.publicKeyHex :=
    newline_not_mem_line (by decide) hkey
  rw [htext]
  constructor
  · rw [readValue_cons hfirst (splitEquals_append _ _ (by decide)), if_pos rfl]
  · rw [readValue_cons hfirst (splitEquals_append _ _ (by decide)), if_neg (by decide),
      readValue_cons hsecond (splitEquals_append _ _ (by decide)), if_pos rfl]

theorem keyPath_ne (configPath : Bytes) : keyPath configPath ≠ configPath := by
  intro h
  simpa [keyPath, ascii] using congrArg List.length h

variable {paths : PathOps} {store : IdentityStore} {sodium : Option SodiumKeypair} {files after : Files}
  {nodeId configPath : Bytes} {identity : NodeIdentity}

theorem loadOrCreate_creates (hpath : store.configPath paths = .ok configPath) (hempty : files.find configPath = none)
    (h : store.loadOrCreate paths sodium files nodeId = (after, .ok identity)) :
    identity = ⟨nodeId, encodeHex (generateEd25519Keypair sodium).publicKey, keyPath configPath⟩ ∧
      after.find configPath = some (configText identity) ∧
        after.find (keyPath configPath) = some (generateEd25519Keypair sodium).secretKey := by
  simp only [loadOrCreate, hpath, hempty, Prod.mk.injEq, Except.ok.injEq] at h
  obtain ⟨rfl, rfl⟩ := h
  refine ⟨rfl, ?_, ?_⟩
  · rw [SortedMap.find_insert, if_pos rfl]
  · rw [SortedMap.find_insert, if_neg (keyPath_ne configPath), SortedMap.find_insert, if_pos rfl]

theorem loadOrCreate_loads (hpath : store.configPath paths = .ok configPath) {content key : Bytes}
    (hcontent : files.find configPath = some content) (hkey : files.find (keyPath configPath) = some key)
    (hsize : key.length = expectedKeySize) (sodium : Option SodiumKeypair) (nodeId : Bytes) :
    store.loadOrCreate paths sodium files nodeId =
      (files, .ok ⟨readValue content (ascii "node_id"), readValue content (ascii "public_key_hex"),
        keyPath configPath⟩) := by
  simp only [loadOrCreate, hpath, hcontent, hkey]
  exact if_neg (not_not.mpr hsize)

theorem loadOrCreate_wrong_size (hpath : store.configPath paths = .ok configPath) {content key : Bytes}
    (hcontent : files.find configPath = some content) (hkey : files.find (keyPath configPath) = some key)
    (hsize : key.length ≠ expectedKeySize) (sodium : Option SodiumKeypair) (nodeId : Bytes) :
    ∃ message, store.loadOrCreate paths sodium files nodeId = (files, .error message) := by
  simp only [loadOrCreate, hpath, hcontent, hkey]
  exact ⟨_, if_pos hsize⟩

theorem loadAll_cons {result : Except Bytes NodeIdentity}
    (h : store.loadOrCreate paths sodium files nodeId = (after, result)) (starts : List Start) :
    loadAll paths store files (⟨sodium, nodeId⟩ :: starts) = result :: loadAll paths store after starts := by
  simp only [loadAll, h]

theorem loadAll_unchanged {result : Except Bytes NodeIdentity}
    (h : ∀ start : Start, store.loadOrCreate paths start.sodium files start.nodeId = (files, result))
    (starts : List Start) : loadAll paths store files starts = List.replicate starts.length result := by
  induction starts with
  | nil => rfl
  | cons start starts ih => rw [loadAll_cons (h start), ih, List.length_cons, List.replicate_succ]

/-- The size check of a load passes for what a build with libsodium stores,
and for nothing that a build without it does. -/
theorem generateEd25519Keypair_secretKey (sodium : Option SodiumKeypair) :
    (generateEd25519Keypair sodium).secretKey.length = expectedKeySize ↔ sodium.isSome = true := by
  cases sodium with
  | none => decide
  | some keypair =>
      have hlength : keypair.secretKey.length = expectedKeySize := keypair.secretKey_length
      simpa [generateEd25519Keypair] using hlength

/-- Every later start gets the identity of the first exactly when the first
had a keypair to store. -/
theorem identity_stable_iff (paths : PathOps) (store : IdentityStore) (sodium : Option SodiumKeypair)
    (files after : Files) (nodeId : Bytes) (identity : NodeIdentity) (hid : newline ∉ nodeId)
    (hempty : ∀ path, store.configPath paths = .ok path → files.find path = none)
    (h : store.loadOrCreate paths sodium files nodeId = (after, .ok identity)) :
    (∀ starts, ∀ result ∈ loadAll paths store after starts, result = .ok identity) ↔ sodium.isSome = true := by
  cases hpath : store.configPath paths with
  | error message => simp [loadOrCreate, hpath] at h
  | ok configPath =>
      obtain ⟨hidentity, hcontent, hkey⟩ := loadOrCreate_creates hpath (hempty configPath hpath) h
      rw [← generateEd25519Keypair_secretKey]
      constructor
      · intro hstable
        by_contra hsize
        obtain ⟨message, herror⟩ := loadOrCreate_wrong_size hpath hcontent hkey hsize none nodeId
        have hsecond : Except.error message ∈ loadAll paths store after [⟨none, nodeId⟩] := by
          rw [loadAll_cons herror]
          exact List.mem_cons_self
        have hthrows := hstable _ _ hsecond
        cases hthrows
      · intro hsize starts result hresult
        have hidline : newline ∉ identity.nodeId := by rwa [hidentity]
        have hkeyline : newline ∉ identity.publicKeyHex := by
          simpa only [hidentity] using (encodeHex_spaceFree _).newline_not_mem
        obtain ⟨hreadid, hreadkey⟩ := readValue_configText hidline hkeyline
        have hkeypath : identity.privateKeyPath = keyPath configPath := by rw [hidentity]
        have hloads (start : Start) := loadOrCreate_loads hpath hcontent hkey hsize start.sodium start.nodeId
        rw [hreadid, hreadkey, ← hkeypath] at hloads
        rw [loadAll_unchanged hloads] at hresult
        exact List.eq_of_mem_replicate hresult

def engineStore : IdentityStore := ⟨ascii ".beaconnode/identity.txt", by decide⟩

def zeroKeypair : SodiumKeypair := ⟨⟨List.replicate 32 0, List.replicate 64 0⟩, rfl, rfl⟩

def firstStart (sodium : Option SodiumKeypair) : Files × Except Bytes NodeIdentity :=
  engineStore.loadOrCreate plainPaths sodium .empty (ascii "node-1")

def firstIdentity (publicKey : Bytes) : NodeIdentity :=
  ⟨ascii "node-1", encodeHex publicKey, ascii "/srv/.beaconnode/identity.txt.key"⟩

def laterStarts : List Start := [⟨none, ascii "node-2"⟩, ⟨some zeroKeypair, ascii "node-1"⟩]

theorem identity_stable_zeroKeypair :
    (loadAll plainPaths engineStore (firstStart (some zeroKeypair)).1 laterStarts).all
      (fun result => result = .ok (firstIdentity (List.replicate 32 0))) = true := by
  have hstable := (identity_stable_iff plainPaths engineStore (some zeroKeypair) .empty _ (ascii "node-1") _
    (by decide) (fun _ _ => rfl) rfl).mpr rfl
  rw [List.all_eq_true]
  intro result hresult
  exact decide_eq_true (hstable laterStarts result hresult)

/-- Without libsodium the first start stores an empty key, and the next one
throws. -/
theorem identity_lost_without_sodium :
    (firstStart none).2 = .ok (firstIdentity []) ∧
      loadAll plainPaths engineStore (firstStart none).1 [⟨none, ascii "node-1"⟩] =
        [.error (ascii ("Key file /srv/.beaconnode/identity.txt.key has invalid size (0 bytes), " ++
          "expected 64 bytes"))] := by
  decide +kernel

end BeaconNode.StoredIdentity
