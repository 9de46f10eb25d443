import KeyTransparency.Snapshot
import KeyTransparency.Status

/-!
# Why a snapshot is refused

The reasons for which a snapshot does not start a chain or does not continue one
(`ChainError`), with their texts and their status codes.
-/

namespace KeyTransparency

/-- What is wrong with a snapshot that is offered as the first of a chain. -/
inductive InitialFault where
  | notFirstEpoch
  | hasPredecessor
deriving DecidableEq

def InitialFault.message : InitialFault → String
  | .notFirstEpoch => "first snapshot must be epoch 0"
  | .hasPredecessor => "epoch-0 back-link must be the zero digest"

inductive ChainError where
  | malformedInitial (epoch : Epoch) (fault : InitialFault)
  /-- The epoch is not the one after the epoch of the predecessor. -/
  | epochGap (expected got : Epoch)
  /-- The snapshot does not name the digest of its predecessor. -/
  | brokenLink (epoch : Epoch)
  | invalidSignature (epoch : Epoch)
  /-- The pinned key is no point of the curve. -/
  | invalidKey
deriving DecidableEq

namespace ChainError

def message : ChainError → String
  | malformedInitial epoch fault =>
    "malformed initial state at epoch " ++ toString epoch ++ ": " ++ fault.message
  | epochGap expected got =>
    "epoch gap: expected " ++ toString expected ++ ", got " ++ toString got
  | brokenLink epoch => "broken hash link at epoch " ++ toString epoch
  | invalidSignature epoch => "invalid signature at epoch " ++ toString epoch
  | invalidKey => "invalid directory public key"

def status : ChainError → Status
  | malformedInitial _ _ | invalidKey => .malformedMessage
  | epochGap _ _ | brokenLink _ | invalidSignature _ => .invalidChain

end ChainError

end KeyTransparency
