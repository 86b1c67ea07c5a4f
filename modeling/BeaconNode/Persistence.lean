import BeaconNode.TextStream

namespace BeaconNode.Persistence

open Words TextStream

structure RegistryEntry where
  agentId : Bytes := []
  capability : Bytes := []
  endpoint : Bytes := []
  timestamp : UInt64 := 0
  publicKey : Bytes := []
  signature : Bytes := []
  deriving DecidableEq

/-- The generated message class of a registry entry, through the two calls
the service makes. -/
structure EntryMessage where
  serialize : RegistryEntry → Option Bytes
  parse : Bytes → Option RegistryEntry

structure EntryCodec extends EntryMessage where
  parse_serialize : ∀ entry bytes, serialize entry = some bytes → parse bytes = some entry

instance : Coe EntryCodec EntryMessage := ⟨EntryCodec.toEntryMessage⟩

def crcBit (crc : UInt32) : UInt32 :=
  if crc &&& 1 ≠ 0 then (crc >>> 1) ^^^ 0xEDB88320 else crc >>> 1

def crcByte (crc : UInt32) (c : UInt8) : UInt32 := Nat.iterate crcBit 8 (crc ^^^ c.toUInt32)

def computeCrc32 (data : Bytes) : UInt32 := ~~~ (data.foldl crcByte 0xFFFFFFFF)

/-- What the three writes of an entry put into a file. The size is cut to 32
bits, and no more bytes than it says are written. -/
def recordBytes (serialized : Bytes) : Bytes :=
  let size := UInt32.ofNat serialized.length
  leBytes size ++ leBytes (computeCrc32 serialized) ++ serialized.take size.toNat

/-- Nothing is written for an entry that does not serialize. -/
def entryBytes (codec : EntryMessage) (entry : RegistryEntry) : Bytes :=
  match codec.serialize entry with
  | none => []
  | some serialized => recordBytes serialized

structure Disk where
  wal : Option Bytes := none
  snapshot : Option Bytes := none
  temporary : Option Bytes := none

structure PersistenceService where
  disk : Disk := {}
  walFile : Bool := false

/-- Append mode keeps what the file holds. -/
def openWal (opens : Bool) (disk : Disk) : PersistenceService :=
  if opens then ⟨{ disk with wal := some (disk.wal.getD []) }, true⟩ else ⟨disk, false⟩

def start (disk : Disk) : PersistenceService := openWal true disk

def writeWal (disk : Disk) (bytes : Bytes) : Disk := { disk with wal := some (disk.wal.getD [] ++ bytes) }

def appendEntry (codec : EntryMessage) (service : PersistenceService) (entry : RegistryEntry) : PersistenceService :=
  if service.walFile then { service with disk := writeWal service.disk (entryBytes codec entry) } else service

/-- Which of the file operations of a snapshot succeed. -/
structure SnapshotIo where
  opensTemporary : Bool := true
  renames : Bool := true
  truncates : Bool := true
  opensWal : Bool := true

def snapshotBytes (codec : EntryMessage) (entries : List RegistryEntry) : Bytes :=
  leBytes (UInt32.ofNat entries.length) ++ entries.flatMap (entryBytes codec)

def createSnapshot (codec : EntryMessage) (io : SnapshotIo) (service : PersistenceService)
    (entries : List RegistryEntry) : PersistenceService :=
  if io.opensTemporary then
    let written := snapshotBytes codec entries
    let disk := if io.renames then { service.disk with snapshot := some written, temporary := none }
      else { service.disk with temporary := some written }
    -- the log is cut whether or not the rename succeeded
    let disk := if io.truncates then { disk with wal := some [] } else disk
    openWal io.opensWal disk
  else openWal io.opensWal service.disk

def maxEntrySize : UInt32 := 10 * 1024 * 1024
def maxSnapshotRecords : UInt32 := 1000000

inductive RecoverError
  | tooManyRecords (total : UInt32)
  | entryTooLarge (size : UInt32)
  | trailingBytes
  deriving DecidableEq

def RecoverError.message (snapshotPath : Bytes) : RecoverError → Bytes
  | .tooManyRecords total =>
      ascii "Snapshot header reports " ++ decimal total.toNat ++ ascii " records, which exceeds maximum of " ++
        decimal maxSnapshotRecords.toNat
  | .entryTooLarge size =>
      ascii "Snapshot entry size " ++ decimal size.toNat ++ ascii " exceeds maximum of " ++
        decimal maxEntrySize.toNat
  | .trailingBytes => ascii "Unexpected trailing bytes in snapshot: " ++ snapshotPath

/-- A read of the given number of bytes; a short one fails. -/
def readBytes (size : Nat) (bytes : Bytes) : Option (Bytes × Bytes) :=
  if size ≤ bytes.length then some (bytes.take size, bytes.drop size) else none

/-- The entry in a buffer, unless its checksum or its encoding is wrong. -/
def checkedEntry (codec : EntryMessage) (checksum : UInt32) (buffer : Bytes) : Option RegistryEntry :=
  if computeCrc32 buffer ≠ checksum then none else codec.parse buffer

/-- The snapshot's loop, with what it leaves unread. A short read ends the
loop at the end of the file. -/
def readSnapshot (codec : EntryMessage) : Nat → Bytes → Except RecoverError (List RegistryEntry × Bytes)
  | 0, bytes => .ok ([], bytes)
  | count + 1, bytes =>
      match readWord bytes with
      | none => .ok ([], [])
      | some (size, bytes) =>
          if maxEntrySize < size then .error (.entryTooLarge size)
          else match readWord bytes with
            | none => .ok ([], [])
            | some (checksum, bytes) =>
                match readBytes size.toNat bytes with
                | none => .ok ([], [])
                | some (buffer, bytes) => do
                    let (entries, rest) ← readSnapshot codec count bytes
                    pure ((checkedEntry codec checksum buffer).toList ++ entries, rest)

/-- The record count. A file too short for it still sets the low bytes. -/
def readHeader (bytes : Bytes) : UInt32 × Bytes :=
  match readWord bytes with
  | some header => header
  | none => (leWord (bytes.getD 0 0) (bytes.getD 1 0) (bytes.getD 2 0) (bytes.getD 3 0), [])

def recoverSnapshot (codec : EntryMessage) (bytes : Bytes) : Except RecoverError (List RegistryEntry) :=
  let (total, bytes) := readHeader bytes
  if maxSnapshotRecords < total then .error (.tooManyRecords total)
  else do
    let (entries, rest) ← readSnapshot codec total.toNat bytes
    if rest ≠ [] then .error .trailingBytes else pure entries

def maxTimestamp (entries : List RegistryEntry) : UInt64 :=
  entries.foldl (fun latest entry => if latest < entry.timestamp then entry.timestamp else latest) 0

/-- The log's loop. A turn that goes on has read eight bytes or more, so the
length of the file bounds the number of turns. -/
def replayTurns (codec : EntryMessage) (after : UInt64) : Nat → Bytes → List RegistryEntry
  | 0, _ => []
  | turns + 1, bytes =>
      match readWord bytes with
      | none => []
      | some (size, bytes) =>
          match readWord bytes with
          | none => []
          | some (checksum, bytes) =>
              -- an oversized entry is dropped without its payload
              if maxEntrySize < size then replayTurns codec after turns bytes
              else match readBytes size.toNat bytes with
                | none => []
                | some (buffer, bytes) =>
                    ((checkedEntry codec checksum buffer).filter (fun entry => after < entry.timestamp)).toList ++
                      replayTurns codec after turns bytes

def replay (codec : EntryMessage) (after : UInt64) (bytes : Bytes) : List RegistryEntry :=
  replayTurns codec after bytes.length bytes

def snapshotEntries (codec : EntryMessage) : Option Bytes → Except RecoverError (List RegistryEntry)
  | none => pure []
  | some bytes => recoverSnapshot codec bytes

def walEntries (codec : EntryMessage) (after : UInt64) : Option Bytes → List RegistryEntry
  | none => []
  | some bytes => replay codec after bytes

def recover (codec : EntryMessage) (disk : Disk) : Except RecoverError (List RegistryEntry) := do
  let entries ← snapshotEntries codec disk.snapshot
  pure (entries ++ walEntries codec (maxTimestamp entries) disk.wal)

end BeaconNode.Persistence
