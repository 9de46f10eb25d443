import KeyTransparency.Audit.Store
import KeyTransparency.Chain.Error
import KeyTransparency.Message.Response

/-!
# Failures of an audit log

Why an audit log does not do what it is asked to do (`AuditError`), with texts and
status codes.
-/

namespace KeyTransparency

/-- What is wrong with the snapshots or the range that a log is given. -/
inductive RequestFault where
  | noSnapshots
  | notFromStart
  | outOfBounds
deriving DecidableEq

def RequestFault.message : RequestFault → String
  | .noSnapshots => "empty snapshot list"
  | .notFromStart => "history must start at epoch 0"
  | .outOfBounds => "epoch range out of bounds"

inductive AuditError where
  | malformed (fault : RequestFault)
  | unknownDirectory (id : DirectoryId)
  | alreadyExists (id : DirectoryId)
  | chain (cause : ChainError)
  | response (cause : MessageError)
  /-- The stored snapshots do not start with the one that the identity is the digest of. -/
  | storedMismatch (id : DirectoryId)
  | store (cause : StoreError)
deriving DecidableEq

namespace AuditError

def message : AuditError → String
  | malformed fault => "malformed message: " ++ fault.message
  | unknownDirectory id => "unknown directory: " ++ id.hex
  | alreadyExists id => "directory already exists: " ++ id.hex
  | chain cause => "chain admission failed: " ++ cause.message
  | response cause => "invalid response: " ++ cause.message
  | storedMismatch id => "storage error: stored history does not match directory " ++ id.hex
  | store .truncatedKey => "storage error: truncated directory key"
  | store (.undecodable cause) => "serialization error: " ++ cause.message
  | store (.unwritten reason) => "storage error: " ++ reason

def status : AuditError → Status
  | malformed _ => .malformedMessage
  | unknownDirectory _ => .unknownDirectory
  | alreadyExists _ => .alreadyExists
  | chain cause => cause.status
  | response cause => cause.status
  | storedMismatch _ | store _ => .internal

end AuditError

end KeyTransparency
