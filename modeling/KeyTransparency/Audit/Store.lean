import KeyTransparency.Snapshot

/-!
# Stored histories

A store keeps, for any number of directories, a record of address and key and the
snapshots by epoch. It only stores: what it returns is as good as what was put
in. There are two kinds of stores.

* A store in memory has the records by identity and the snapshots by key, and reads
  the snapshots of a directory from the key of its epoch 0 on.
* A store on disk has two tables of bytes (`Tables`), which others may have changed,
  and reads the snapshots of a directory from the keys that start with its identity.

The key of a snapshot (`snapshotKey`) is the identity followed by the epoch, most
significant byte first, so that the order of keys is the order of epochs.

All rows of one write are committed at once (`Store.write`), or the medium that the store
is kept on fails (`Medium`) and none of them is.
-/

namespace KeyTransparency

/-- What is stored of a directory beside its snapshots. -/
structure Record where
  address : String
  key : PublicKey
deriving DecidableEq

def Record.codec : Codec Record :=
  (Codec.text.pair PublicKey.codec).convert (fun (address, key) => ⟨address, key⟩) fun r =>
    (r.address, r.key)

/-- Byte strings by byte strings, in the order of the keys. -/
abbrev Table := Std.ExtTreeMap Bytes Bytes

/-- The rows of a store on disk. -/
structure Tables where
  directories : Table
  snapshots : Table
deriving DecidableEq

namespace Tables

def empty : Tables := ⟨∅, ∅⟩

/-- Both tables in bytes, the one of the records first. -/
def codec : Codec Tables :=
  let table : Codec Table := Codec.mapping Codec.bytes Codec.bytes
  (table.pair table).convert (fun (directories, snapshots) => ⟨directories, snapshots⟩) fun t =>
    (t.directories, t.snapshots)

end Tables

inductive Store where
  | memory (directories : Std.ExtTreeMap DirectoryId Bytes) (snapshots : Table)
  | disk (tables : Tables)
deriving DecidableEq

/-- Why stored rows cannot be read, or new ones written. -/
inductive StoreError where
  /-- The key of a record is shorter than an identity. -/
  | truncatedKey
  | undecodable (cause : DecodeError)
  /-- The medium has not taken the rows. -/
  | unwritten (reason : String)
deriving DecidableEq

/-- What a store is kept on, at the time of a write: it takes what is written, or fails for
a reason of its own. -/
inductive Medium where
  | writable
  | failing (reason : String)
deriving DecidableEq

/-- The key of a snapshot in the table of snapshots. -/
def snapshotKey (id : DirectoryId) (epoch : Epoch) : Bytes :=
  id.block.bytes ++ Bytes.ofNatBE 8 epoch.toNat

/-- The identity that the key of a record stands for: its first 32 bytes. -/
def idOfKey (key : Bytes) : Except StoreError DirectoryId :=
  match Block32.ofBytes? (key.take 32) with
  | some block => .ok ⟨block⟩
  | none => .error .truncatedKey

/-- The table with the snapshots of a directory put in, one after the other. -/
def Table.putSnapshots (table : Table) (id : DirectoryId) (snapshots : List Snapshot) : Table :=
  snapshots.foldl (fun table s => table.insert (snapshotKey id s.epoch) s.encode) table

/-- Reads one value from each of the rows. -/
def decodeRows {α : Type} (c : Codec α) : List (Bytes × Bytes) → Except StoreError (List α)
  | [] => .ok []
  | (_, bs) :: rows =>
    match c.read bs with
    | .error cause => .error (.undecodable cause)
    | .ok a => (decodeRows c rows).map (a :: ·)

namespace Store

def inMemory : Store := .memory ∅ ∅

/-- Puts in the snapshots of a directory, each in place of any other of its epoch. -/
def putSnapshots (store : Store) (id : DirectoryId) (snapshots : List Snapshot) : Store :=
  match store with
  | memory directories table => memory directories (table.putSnapshots id snapshots)
  | disk tables => disk { tables with snapshots := tables.snapshots.putSnapshots id snapshots }

/-- Puts in the record of a directory in place of any other, and snapshots of it. -/
def putDirectory (store : Store) (id : DirectoryId) (record : Record) (snapshots : List Snapshot) :
    Store :=
  match store with
  | memory directories table =>
    memory (directories.insert id (Record.codec.encode record)) (table.putSnapshots id snapshots)
  | disk tables =>
    disk ⟨tables.directories.insert id.block.bytes (Record.codec.encode record),
      tables.snapshots.putSnapshots id snapshots⟩

/-- Puts in snapshots of a directory, and a record of it if there is one. -/
def put (store : Store) (id : DirectoryId) (record : Option Record) (snapshots : List Snapshot) : Store :=
  match record with
  | some record => store.putDirectory id record snapshots
  | none => store.putSnapshots id snapshots

/-- The store with all of it put in, if the medium takes it. -/
def write (store : Store) (medium : Medium) (id : DirectoryId) (record : Option Record)
    (snapshots : List Snapshot) : Except StoreError Store :=
  match medium with
  | .writable => .ok (store.put id record snapshots)
  | .failing reason => .error (.unwritten reason)

/-- The record of a directory. -/
def getDirectory (store : Store) (id : DirectoryId) : Except StoreError (Option Record) :=
  let row := match store with
    | memory directories _ => directories[id]?
    | disk tables => tables.directories[id.block.bytes]?
  match row with
  | none => .ok none
  | some bs =>
    match Record.codec.read bs with
    | .ok record => .ok (some record)
    | .error cause => .error (.undecodable cause)

/-- The records that rows hold, with the identities their keys stand for. The
first row that cannot be read decides about the error. -/
def decodeRecords : List (Bytes × Bytes) → Except StoreError (List (DirectoryId × Record))
  | [] => .ok []
  | (key, bs) :: rows => do
    let id ← idOfKey key
    match Record.codec.read bs with
    | .error cause => .error (.undecodable cause)
    | .ok record => return (id, record) :: (← decodeRecords rows)

/-- All records, in ascending order of their keys. -/
def listDirectories : Store → Except StoreError (List (DirectoryId × Record))
  | memory directories _ => decodeRecords (directories.toList.map fun (id, bs) => (id.block.bytes, bs))
  | disk tables => decodeRecords tables.directories.toList

/-- The snapshots of a directory, in ascending order of their keys. -/
def loadSnapshots (store : Store) (id : DirectoryId) : Except StoreError (List Snapshot) :=
  match store with
  | memory _ table =>
    let fromFirst := table.toList.dropWhile fun (key, _) => compare key (snapshotKey id 0) == .lt
    decodeRows Snapshot.codec (fromFirst.takeWhile fun (key, _) => id.block.bytes.isPrefixOf key)
  | disk tables =>
    decodeRows Snapshot.codec
      (tables.snapshots.toList.filter fun (key, _) => id.block.bytes.isPrefixOf key)

end Store

end KeyTransparency
