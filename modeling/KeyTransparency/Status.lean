import KeyTransparency.Wire.Codec

/-!
# Status codes

Every failure of this library has a status code (`Status`), which is what a peer
gets to see of it, and every code belongs to a class of faults (`FaultClass`)
that says what may be done about it.
-/

namespace KeyTransparency

/-- The outcome of a request as it is told to the peer. -/
inductive Status where
  | ok
  /-- The request has a wrong shape, or an empty or descending range. -/
  | malformedMessage
  | unknownDirectory
  | alreadyExists
  /-- A snapshot has a wrong signature, or does not link to its predecessor. -/
  | invalidChain
  /-- Two observers hold different snapshots of one epoch. -/
  | equivocationDetected
  | proofVerificationFailed
  /-- A value is not the expected one. -/
  | keyMismatch
  /-- The side that answers failed to store or to encode. -/
  | internal
deriving DecidableEq

/-- What kind of failure a status stands for. -/
inductive FaultClass where
  | none
  /-- The request is at fault, and a corrected one may succeed. -/
  | clientCorrectable
  /-- The directory is not known yet. -/
  | unknownIdentity
  /-- The directory broke its chain or showed two of them. -/
  | securityFault
  /-- The directory answered with wrong content. -/
  | contentMismatch
  | internal
deriving DecidableEq

namespace FaultClass

/-- All classes, in the order of their numbers on the wire. -/
def all : List FaultClass :=
  [.none, .clientCorrectable, .unknownIdentity, .securityFault, .contentMismatch, .internal]

def codec : Codec FaultClass := Codec.enumeration all

/-- The name by which documents refer to the class. -/
def name : FaultClass → String
  | .none => "None"
  | .clientCorrectable => "ClientCorrectable"
  | .unknownIdentity => "UnknownIdentity"
  | .securityFault => "SecurityFault"
  | .contentMismatch => "ContentMismatch"
  | .internal => "Internal"

/-- Faults that are reported and never silently retried. -/
def isSecurityRelevant (c : FaultClass) : Bool := c = .securityFault

/-- Whether the same request may succeed later. -/
def isRetryable (c : FaultClass) : Bool := c = .unknownIdentity || c = .internal

end FaultClass

namespace Status

/-- All codes, in the order of their numbers on the wire. -/
def all : List Status :=
  [.ok, .malformedMessage, .unknownDirectory, .alreadyExists, .invalidChain,
   .equivocationDetected, .proofVerificationFailed, .keyMismatch, .internal]

def codec : Codec Status := Codec.enumeration all

/-- The name by which documents refer to the code. -/
def name : Status → String
  | .ok => "Ok"
  | .malformedMessage => "MalformedMessage"
  | .unknownDirectory => "UnknownDirectory"
  | .alreadyExists => "AlreadyExists"
  | .invalidChain => "InvalidChain"
  | .equivocationDetected => "EquivocationDetected"
  | .proofVerificationFailed => "ProofVerificationFailed"
  | .keyMismatch => "KeyMismatch"
  | .internal => "Internal"

def message : Status → String
  | .ok => "ok"
  | .malformedMessage => "malformed message"
  | .unknownDirectory => "unknown directory"
  | .alreadyExists => "already exists"
  | .invalidChain => "invalid chain"
  | .equivocationDetected => "equivocation detected"
  | .proofVerificationFailed => "proof verification failed"
  | .keyMismatch => "key mismatch"
  | .internal => "internal error"

def isOk (s : Status) : Bool := s = .ok

def faultClass : Status → FaultClass
  | .ok => .none
  | .malformedMessage | .alreadyExists => .clientCorrectable
  | .unknownDirectory => .unknownIdentity
  | .invalidChain | .equivocationDetected => .securityFault
  | .proofVerificationFailed | .keyMismatch => .contentMismatch
  | .internal => .internal

theorem mem_all (s : Status) : s ∈ all := by cases s <;> decide

end Status

end KeyTransparency
