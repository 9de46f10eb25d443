import KeyTransparency.Chain.Tip

/-!
# The history of a directory

A history holds every snapshot of a directory from its first one on, next to the
tip of the chain they form and the address of the directory. Snapshots come in at
its end, run by run (`History.append`), and are read by epoch (`History.at?`,
`History.range?`). A run may have to be kept elsewhere before it is taken
(`History.appendWith`).
-/

namespace KeyTransparency

structure History where
  /-- The network address that the directory was registered with. -/
  address : String
  tip : ChainTip
  /-- The snapshots, the one of epoch 0 first. -/
  snapshots : List Snapshot
deriving DecidableEq

namespace History

/-- Pins `key` and starts a history with `initial`. -/
def start (address : String) (key : PublicKey) (initial : Snapshot) : Except ChainError History := do
  let tip ← ChainTip.pin key initial
  return ⟨address, tip, [initial]⟩

def key (h : History) : PublicKey := h.tip.key

def latest (h : History) : Snapshot := h.tip.latest

def length (h : History) : Nat := h.snapshots.length

def isEmpty (h : History) : Bool := h.snapshots.isEmpty

/-- The snapshot of an epoch. -/
def at? (h : History) (epoch : Epoch) : Option Snapshot := h.snapshots[epoch.toNat]?

/-- The snapshots of the epochs from `first` to `last`, both included, unless the
range is descending or ends after the latest epoch. -/
def range? (h : History) (first last : Epoch) : Option (List Snapshot) :=
  if first > last ∨ last > h.tip.epoch then none
  else if last.toNat < h.snapshots.length then
    some ((h.snapshots.drop first.toNat).take (last.toNat + 1 - first.toNat))
  else none

/-- Continues the history with all of `run`, or with none of it. A run that continues the
chain is given to `persist`, and nothing is changed unless that succeeds. The result is the
number of snapshots taken, and what `persist` gives. -/
def appendWith {ε α : Type} (h : History) (refused : ChainError → ε) (persist : List Snapshot → Except ε α)
    (run : List Snapshot) : Except ε (Nat × α) × History :=
  match h.tip.append run with
  | (.error e, _) => (.error (refused e), h)
  | (.ok n, tip) =>
    match persist run with
    | .error e => (.error e, h)
    | .ok a => (.ok (n, a), { h with tip, snapshots := h.snapshots ++ run })

/-- Continues the history with all of `run`, or with none of it. The result is the
number of snapshots taken. -/
def append (h : History) (run : List Snapshot) : Except ChainError Nat × History :=
  let (result, h) := h.appendWith id (fun _ => .ok ()) run
  (result.map (·.1), h)

/-- The history that starts with `initial` and continues with all of `run`. -/
def build (address : String) (key : PublicKey) (initial : Snapshot) (run : List Snapshot) :
    Except ChainError History := do
  let h ← start address key initial
  match h.append run with
  | (.ok _, h) => return h
  | (.error e, _) => .error e

end History

end KeyTransparency
