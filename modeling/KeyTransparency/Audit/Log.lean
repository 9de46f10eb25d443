import KeyTransparency.Audit.Error
import KeyTransparency.Audit.History
import KeyTransparency.Message.Request

/-!
# The audit log

An audit log holds the verified histories of directories, each under the
directory's identity, and writes what it takes to a store if it has one.

* `AuditLog.start` takes a directory from its first snapshot on, `AuditLog.extend`
  and `AuditLog.ingest` take more snapshots of a directory it has. A refused run
  changes neither the histories nor the store.
* `AuditLog.startOn`, `AuditLog.extendOn` and `AuditLog.ingestOn` are the same on any
  medium. What is taken is written first (`AuditLog.persist`), once it is checked, and the
  histories are changed only when it is written.
* `AuditLog.ofStore` takes the histories of a store, checking every snapshot again.
* `AuditLog.observedRange` and `AuditLog.answer` hand out snapshots.
-/

namespace KeyTransparency

structure AuditLog where
  histories : Std.ExtTreeMap DirectoryId History
  store : Option Store
deriving DecidableEq

/-- What is told of a directory when a log is listed. -/
structure DirectorySummary where
  id : DirectoryId
  address : String
  latestEpoch : Epoch
deriving DecidableEq

namespace AuditLog

/-- A log without histories and without a store. -/
def empty : AuditLog := ⟨∅, none⟩

/-- The history of the stored record, from the stored snapshots. -/
def restore (id : DirectoryId) (record : Record) (snapshots : List Snapshot) :
    Except AuditError History :=
  match snapshots with
  | [] => .error (.storedMismatch id)
  | first :: rest =>
    if first.directoryId ≠ id then .error (.storedMismatch id)
    else (History.build record.address record.key first rest).mapError .chain

/-- The histories of the given records, added to the given ones. -/
def restoreAll (store : Store) (histories : Std.ExtTreeMap DirectoryId History) :
    List (DirectoryId × Record) → Except AuditError (Std.ExtTreeMap DirectoryId History)
  | [] => .ok histories
  | (id, record) :: records => do
    let snapshots ← (store.loadSnapshots id).mapError .store
    let history ← restore id record snapshots
    restoreAll store (histories.insert id history) records

/-- The log with the histories of a store, all of which have to be valid. -/
def ofStore (store : Store) : Except AuditError AuditLog := do
  let records ← store.listDirectories.mapError .store
  let histories ← restoreAll store ∅ records
  return ⟨histories, some store⟩

def contains (log : AuditLog) (id : DirectoryId) : Bool := log.histories.contains id

/-- The history of a directory. -/
def history (log : AuditLog) (id : DirectoryId) : Except AuditError History :=
  match log.histories[id]? with
  | some h => .ok h
  | none => .error (.unknownDirectory id)

/-- Writes what is taken of a directory to the store, if the log has one. The result is the
store after it. -/
def persist (log : AuditLog) (medium : Medium) (id : DirectoryId) (record : Option Record)
    (snapshots : List Snapshot) : Except AuditError (Option Store) :=
  match log.store with
  | none => .ok none
  | some store => ((store.write medium id record snapshots).mapError .store).map some

/-- Takes a directory with its snapshots from epoch 0 on, pinning `key`, if they can be
written. The result is its identity. -/
def startOn (medium : Medium) (log : AuditLog) (address : String) (key : PublicKey)
    (snapshots : List Snapshot) : Except AuditError DirectoryId × AuditLog :=
  match snapshots with
  | [] => (.error (.malformed .noSnapshots), log)
  | first :: rest =>
    if first.epoch ≠ 0 then (.error (.malformed .notFromStart), log)
    else
      let id := first.directoryId
      if log.contains id then (.error (.alreadyExists id), log)
      else
        match History.build address key first rest with
        | .error e => (.error (.chain e), log)
        | .ok h =>
          match log.persist medium id (some ⟨address, key⟩) snapshots with
          | .error e => (.error e, log)
          | .ok store => (.ok id, ⟨log.histories.insert id h, store⟩)

/-- Takes a directory with its snapshots from epoch 0 on, pinning `key`. The result
is its identity. -/
def start (log : AuditLog) (address : String) (key : PublicKey) (snapshots : List Snapshot) :
    Except AuditError DirectoryId × AuditLog :=
  log.startOn .writable address key snapshots

/-- Continues the history of a directory with all of `run`, if it can be written, or with
none of it. The result is the number of snapshots taken. -/
def extendOn (medium : Medium) (log : AuditLog) (id : DirectoryId) (run : List Snapshot) :
    Except AuditError Nat × AuditLog :=
  if run.isEmpty then (.error (.malformed .noSnapshots), log)
  else
    match log.history id with
    | .error e => (.error e, log)
    | .ok h =>
      match h.appendWith .chain (log.persist medium id none) run with
      | (.error e, h) => (.error e, { log with histories := log.histories.insert id h })
      | (.ok (n, store), h) => (.ok n, ⟨log.histories.insert id h, store⟩)

/-- Continues the history of a directory with all of `run`, or with none of it. The
result is the number of snapshots taken. -/
def extend (log : AuditLog) (id : DirectoryId) (run : List Snapshot) : Except AuditError Nat × AuditLog :=
  log.extendOn .writable id run

/-- Continues the history of a directory with the snapshots of a response, if they can be
written. -/
def ingestOn (medium : Medium) (log : AuditLog) (id : DirectoryId) (r : Response) :
    Except AuditError Nat × AuditLog :=
  match r.asHistory with
  | .error e => (.error (.response e), log)
  | .ok run => log.extendOn medium id run

/-- Continues the history of a directory with the snapshots of a response. -/
def ingest (log : AuditLog) (id : DirectoryId) (r : Response) : Except AuditError Nat × AuditLog :=
  log.ingestOn .writable id r

/-- The snapshots of a directory from one epoch to another, both included. -/
def observedRange (log : AuditLog) (id : DirectoryId) (first last : Epoch) :
    Except AuditError (List Snapshot) := do
  let h ← log.history id
  match h.range? first last with
  | some run => return run
  | none => .error (.malformed .outOfBounds)

/-- The response to a request for snapshots. A failure is told by its status. -/
def answer (log : AuditLog) (request : RangeRequest) : Response :=
  match log.observedRange request.directory request.first request.last with
  | .ok run => Response.ofHistory run
  | .error e => Response.failure e.status

/-- The latest snapshot of a directory. -/
def latest (log : AuditLog) (id : DirectoryId) : Except AuditError Snapshot := do
  let h ← log.history id
  return h.latest

/-- All directories, in ascending order of their identities. -/
def directories (log : AuditLog) : List DirectorySummary :=
  log.histories.toList.map fun (id, h) => ⟨id, h.address, h.latest.epoch⟩

end AuditLog

end KeyTransparency
