import KeyTransparency.Chain.Error
import KeyTransparency.Message.Response

/-!
# Failures of a client session

Why a session does not take a response (`SessionError`), with texts and status codes.
-/

namespace KeyTransparency

/-- Why a proof about a name is refused, in the words of what verifies it. -/
structure ProofError where
  reason : String
deriving DecidableEq

def ProofError.message (e : ProofError) : String := "proof rejected: " ++ e.reason

/-- What a proof proves of a name under a root: a value, or that the name has none. -/
abbrev ProofVerifier := (proof : Bytes) → (root : Digest) → (name : String) →
  Except ProofError (Option Bytes)

/-- Why a promise is refused. -/
inductive PromiseFault where
  | missing
  | otherName
  | notBound
  | neverDue
  | badSignature
deriving DecidableEq

def PromiseFault.message : PromiseFault → String
  | .missing => "missing registration promise"
  | .otherName => "promise is for a different name"
  | .notBound => "promise is not bound to the response snapshot"
  | .neverDue => "promise can never come due"
  | .badSignature => "bad promise signature"

inductive SessionError where
  | uninitialized
  | alreadyInitialized
  | faulted
  | chain (cause : ChainError)
  | response (cause : MessageError)
  /-- Two different snapshots of one epoch, or of two branches that meet at it. -/
  | equivocation (epoch : Epoch)
  | proof (cause : ProofError)
  | invalidPromise (fault : PromiseFault)
  | keyMismatch (name : String)
deriving DecidableEq

namespace SessionError

def message : SessionError → String
  | uninitialized => "checker is not initialized"
  | alreadyInitialized => "checker is already initialized"
  | faulted => "checker is faulted"
  | chain cause => "chain verification failed: " ++ cause.message
  | response cause => "invalid response: " ++ cause.message
  | equivocation epoch => "equivocation detected at epoch " ++ toString epoch
  | proof cause => cause.message
  | invalidPromise fault => "invalid registration promise: " ++ fault.message
  | keyMismatch name => "value mismatch for " ++ name

def status : SessionError → Status
  | uninitialized => .unknownDirectory
  | alreadyInitialized => .alreadyExists
  | faulted => .invalidChain
  | chain cause => cause.status
  | response cause => cause.status
  | equivocation _ => .equivocationDetected
  | proof _ | invalidPromise _ => .proofVerificationFailed
  | keyMismatch _ => .keyMismatch

end SessionError

end KeyTransparency
