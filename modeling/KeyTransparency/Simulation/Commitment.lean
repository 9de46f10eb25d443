import KeyTransparency.Client.Error

/-!
# Commitments to whole mappings

The simplest authenticated mapping: the proof about any name is the whole mapping in
bytes, together with a salt, and the root is the digest of the proof. A salt gives
two directories different roots for equal mappings.
-/

namespace KeyTransparency

/-- The values of names. -/
abbrev Mapping := Std.ExtTreeMap String Bytes

/-- What a root stands for. -/
structure Commitment where
  salt : Bytes
  entries : Mapping
deriving DecidableEq

namespace Commitment

def codec : Codec Commitment :=
  (Codec.bytes.pair (Codec.mapping Codec.text Codec.bytes)).convert
    (fun (salt, entries) => ⟨salt, entries⟩) fun c => (c.salt, c.entries)

/-- The proof about every name. -/
def proof (c : Commitment) : Bytes := codec.encode c

def root (c : Commitment) : Digest := Digest.ofData c.proof

/-- The proof does not belong to the root. -/
def rootMismatch : ProofError := ⟨"proof does not hash to root"⟩

/-- What the proof proves of a name, if its digest is the root. -/
def verify : ProofVerifier := fun proof root name =>
  if Digest.ofData proof ≠ root then .error rootMismatch
  else
    match codec.read proof with
    | .ok c => .ok c.entries[name]?
    | .error cause => .error ⟨cause.message⟩

end Commitment

end KeyTransparency
