import KeyTransparency.Chain.Tip
import KeyTransparency.Client.Error
import KeyTransparency.Message.Request

/-!
# A client session

A session follows one directory. It holds the tip of the directory's chain, every
snapshot it has seen, by epoch, and the promises that it has not seen kept.

* `Session.start` pins the key of the directory and takes its first snapshot.
* `Session.receive` takes an answer of the directory: its snapshots have to agree
  with those seen before and to continue the chain, its proof has to hold for the
  last of them, and promises that are due have to be kept. A directory that breaks
  its chain or shows a second snapshot of an epoch is not listened to any more.
* `Session.crossCheck` compares the snapshots of an auditor with those seen here.
-/

namespace KeyTransparency

/-- How far a session has come. -/
inductive SessionState where
  | uninitialized
  | tracking
  | faulted
deriving DecidableEq

structure Session where
  tip : Option ChainTip
  /-- Whether the directory broke its chain. -/
  faulted : Bool
  /-- The snapshots seen, by epoch. -/
  observed : Std.ExtTreeMap Epoch Snapshot
  /-- The promises not seen kept, by name. -/
  promises : Std.ExtTreeMap String Promise
deriving DecidableEq

/-- Whether the snapshots of an auditor are signed with `key` and follow one another.
If they start at epoch 0, the first of them also has to be able to start a chain. -/
def checkAuditorRun (key : PublicKey) : List Snapshot → Except ChainError Unit
  | [] => .ok ()
  | first :: rest => do
    if first.epoch = 0 then checkInitial key first
    else if !first.hasValidSignature key then .error (.invalidSignature first.epoch)
    checkRun key first rest

namespace Session

def empty : Session := ⟨none, false, ∅, ∅⟩

def state (c : Session) : SessionState :=
  if c.faulted then .faulted else if c.tip.isSome then .tracking else .uninitialized

/-- Pins `key` and follows the directory from its first snapshot on. -/
def start (c : Session) (initial : Snapshot) (key : PublicKey) :
    Except SessionError Unit × Session :=
  if c.tip.isSome then (.error .alreadyInitialized, c)
  else
    match ChainTip.pin key initial with
    | .error e => (.error (.chain e), c)
    | .ok tip =>
      (.ok (), { c with tip := some tip, observed := c.observed.insert initial.epoch initial })

/-- The identity of the directory that is followed. -/
def directoryId? (c : Session) : Option DirectoryId := c.observed[(0 : Epoch)]?.map (·.directoryId)

def key? (c : Session) : Option PublicKey := c.tip.map (·.key)

def latest? (c : Session) : Option Snapshot := c.tip.map (·.latest)

/-- The snapshot seen of an epoch. -/
def observedAt? (c : Session) (epoch : Epoch) : Option Snapshot := c.observed[epoch]?

/-- The promise for a name that has not been seen kept. -/
def promise? (c : Session) (name : String) : Option Promise := c.promises[name]?

/-! ## Taking snapshots -/

/-- The snapshots from the first one on whose epoch has not been seen. The ones
before it have to be those seen; the error is the epoch of one that is not. -/
def unseen (observed : Std.ExtTreeMap Epoch Snapshot) :
    List Snapshot → Except Epoch (List Snapshot)
  | [] => .ok []
  | s :: rest =>
    match observed[s.epoch]? with
    | none => .ok (s :: rest)
    | some seen => if seen = s then unseen observed rest else .error s.epoch

/-- The snapshots seen, and those of `run`. -/
def observeAll (observed : Std.ExtTreeMap Epoch Snapshot) (run : List Snapshot) :
    Std.ExtTreeMap Epoch Snapshot :=
  run.foldl (fun observed s => observed.insert s.epoch s) observed

/-- Takes the snapshots of an answer that have not been seen, all of them or none. -/
def takeSnapshots (c : Session) (snapshots : List Snapshot) : Except SessionError Unit × Session :=
  match unseen c.observed snapshots with
  | .error epoch => (.error (.equivocation epoch), { c with faulted := true })
  | .ok [] => (.ok (), c)
  | .ok fresh =>
    match c.tip with
    | none => (.error .uninitialized, c)
    | some tip =>
      match tip.append fresh with
      | (.error e, _) => (.error (.chain e), { c with faulted := true })
      | (.ok _, tip) =>
        (.ok (), { c with tip := some tip, observed := observeAll c.observed fresh })

/-! ## Promises -/

/-- The promise of an answer that proves the name absent under the last snapshot. -/
def checkPromise (c : Session) (answer : MappingProof) (name : String) (last : Snapshot) :
    Except SessionError Promise :=
  match c.key? with
  | none => .error .uninitialized
  | some key =>
    match answer.promise with
    | none => .error (.invalidPromise .missing)
    | some promise =>
      if promise.name ≠ name then .error (.invalidPromise .otherName)
      else if !promise.isBoundTo last then .error (.invalidPromise .notBound)
      else if promise.dueEpoch.isNone then .error (.invalidPromise .neverDue)
      else if !promise.hasValidSignature key then .error (.invalidPromise .badSignature)
      else .ok promise

/-- Holds the value found at an epoch against the promise for the name. A promise
that is due has to be kept, and is done with then. -/
def dischargePromise (c : Session) (name : String) (epoch : Epoch) (value : Option Bytes) :
    Except SessionError Session :=
  match c.promises[name]? with
  | none => .ok c
  | some promise =>
    match promise.dueEpoch with
    | none => .ok c
    | some due =>
      if epoch < due then .ok c
      else if value = some promise.value then .ok { c with promises := c.promises.erase name }
      else .error (.keyMismatch name)

/-! ## Answers of the directory -/

/-- The value of the name in an answer, and the promise it rests on, if any. -/
def readValue (verify : ProofVerifier) (c : Session) (kind : RequestKind) (answer : MappingProof)
    (name : String) (last : Snapshot) : Except SessionError (Option Bytes × Option Promise) :=
  match verify answer.proof last.root name with
  | .error e => .error (.proof e)
  | .ok leaf =>
    match kind, leaf with
    | .registration, none => do
      let promise ← c.checkPromise answer name last
      return (some promise.value, some promise)
    | _, leaf => .ok (leaf, none)

/-- Compares the value found with the expected one and with the promises, and
keeps the promise that the value rests on. -/
def settle (c : Session) (kind : RequestKind) (name : String) (expected : Option Bytes)
    (last : Snapshot) (value : Option Bytes) (promise : Option Promise) :
    Except SessionError Session := do
  if expected.isSome ∧ value ≠ expected then .error (.keyMismatch name)
  let c ← match kind with
    | .keyLookup => c.dischargePromise name last.epoch value
    | .registration => pure c
  match promise with
  | some promise => return { c with promises := c.promises.insert name promise }
  | none => return c

/-- Takes an answer of the directory about a name. The result is the value of the
name, or none if the name is proved absent. -/
def receive (verify : ProofVerifier) (c : Session) (kind : RequestKind) (r : Response)
    (name : String) (expected : Option Bytes) : Except SessionError (Option Bytes) × Session :=
  if c.faulted then (.error .faulted, c)
  else if c.tip.isNone then (.error .uninitialized, c)
  else
    match r.asProof with
    | .error e => (.error (.response e), c)
    | .ok answer =>
      match c.takeSnapshots answer.snapshots with
      | (.error e, c) => (.error e, c)
      | (.ok (), c) =>
        match answer.latest? with
        | none => (.error (.response (.malformed .noSnapshots)), c)
        | some last =>
          match c.readValue verify kind answer name last with
          | .error e => (.error e, c)
          | .ok (value, promise) =>
            match c.settle kind name expected last value promise with
            | .error e => (.error e, c)
            | .ok c => (.ok value, c)

/-! ## Snapshots of an auditor -/

/-- The first epoch at which the snapshots of an auditor differ from those seen. -/
def firstDifference? (observed : Std.ExtTreeMap Epoch Snapshot) : List Snapshot → Option Epoch
  | [] => none
  | s :: rest =>
    match observed[s.epoch]? with
    | none => firstDifference? observed rest
    | some seen => if seen = s then firstDifference? observed rest else some s.epoch

/-- Whether the first snapshot of an auditor fails to link to the one seen before it. -/
def breaksFromSeen (observed : Std.ExtTreeMap Epoch Snapshot) (first : Snapshot) : Bool :=
  match first.epoch.previous?.bind fun e => observed[e]? with
  | none => false
  | some seen => first.previous ≠ seen.digest

/-- The snapshot seen after the last one of an auditor, if it fails to link to it. -/
def breaksToSeen? (observed : Std.ExtTreeMap Epoch Snapshot) (last : Snapshot) : Option Epoch :=
  match last.epoch.next?.bind fun e => observed[e]? with
  | none => none
  | some seen => if seen.previous ≠ last.digest then some seen.epoch else none

/-- Compares snapshots that form a chain with those seen: at the epochs of both,
and where one ends and the other begins. -/
def compareRun (observed : Std.ExtTreeMap Epoch Snapshot) (first last : Snapshot)
    (run : List Snapshot) : Except SessionError Unit :=
  match firstDifference? observed run with
  | some epoch => .error (.equivocation epoch)
  | none =>
    if breaksFromSeen observed first then .error (.equivocation first.epoch)
    else
      match breaksToSeen? observed last with
      | some epoch => .error (.equivocation epoch)
      | none => .ok ()

/-- Compares the answer of an auditor with the snapshots seen. The session stays as
it is: that an auditor shows something else is a matter between others. -/
def crossCheck (c : Session) (r : Response) : Except SessionError Unit :=
  match c.key? with
  | none => .error .uninitialized
  | some key =>
    match r.asHistory with
    | .error e => .error (.response e)
    | .ok run =>
      match checkAuditorRun key run with
      | .error e => .error (.chain e)
      | .ok () =>
        match run.head?, run.getLast? with
        | some first, some last => compareRun c.observed first last run
        | _, _ => .ok ()

end Session

end KeyTransparency
