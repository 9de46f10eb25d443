import KeyTransparency.Chain.Error

/-!
# Following a chain

`checkInitial` says whether a snapshot may start a chain under a key, `checkLink`
whether it may follow a given snapshot. A `ChainTip` holds what is needed to follow
a chain: the key pinned at its start, and its latest snapshot. It moves forward by
whole runs of snapshots (`ChainTip.append`): either every snapshot of the run
follows the one before it, or the tip stays where it is.
-/

namespace KeyTransparency

/-- Whether `s` may start a chain under `key`. -/
def checkInitial (key : PublicKey) (s : Snapshot) : Except ChainError Unit :=
  if s.epoch ≠ 0 then .error (.malformedInitial s.epoch .notFirstEpoch)
  else if s.previous ≠ Digest.zero then .error (.malformedInitial 0 .hasPredecessor)
  else if !key.isPoint then .error .invalidKey
  else if !s.hasValidSignature key then .error (.invalidSignature 0)
  else .ok ()

/-- Whether `s` may follow `before` under `key`. -/
def checkLink (key : PublicKey) (before s : Snapshot) : Except ChainError Unit :=
  if before.epoch.next? ≠ some s.epoch then
    .error (.epochGap (before.epoch.next?.getD Epoch.last) s.epoch)
  else if s.previous ≠ before.digest then .error (.brokenLink s.epoch)
  else if !key.isPoint then .error .invalidKey
  else if !s.hasValidSignature key then .error (.invalidSignature s.epoch)
  else .ok ()

/-- Whether the snapshots of `run` follow one another, the first of them following `before`. -/
def checkRun (key : PublicKey) (before : Snapshot) : List Snapshot → Except ChainError Unit
  | [] => .ok ()
  | s :: run => do
    checkLink key before s
    checkRun key s run

/-- The key pinned at the start of a chain, and the latest snapshot of the chain. -/
structure ChainTip where
  key : PublicKey
  latest : Snapshot
deriving DecidableEq

namespace ChainTip

/-- Pins `key` and starts a chain with `initial`. -/
def pin (key : PublicKey) (initial : Snapshot) : Except ChainError ChainTip := do
  checkInitial key initial
  return ⟨key, initial⟩

def epoch (tip : ChainTip) : Epoch := tip.latest.epoch

/-- Whether `run` continues the chain. -/
def check (tip : ChainTip) (run : List Snapshot) : Except ChainError Unit :=
  checkRun tip.key tip.latest run

/-- The tip at the last snapshot of `run`, or the same tip if there is none. -/
def moveTo (tip : ChainTip) (run : List Snapshot) : ChainTip :=
  { tip with latest := run.getLastD tip.latest }

/-- Continues the chain with all of `run`, or with none of it. The result is the
number of snapshots taken. -/
def append (tip : ChainTip) (run : List Snapshot) : Except ChainError Nat × ChainTip :=
  match tip.check run with
  | .error e => (.error e, tip)
  | .ok () => (.ok run.length, tip.moveTo run)

/-- Continues the chain with one snapshot. -/
def appendOne (tip : ChainTip) (s : Snapshot) : Except ChainError Unit × ChainTip :=
  let (result, tip) := tip.append [s]
  (result.map fun _ => (), tip)

end ChainTip

end KeyTransparency
