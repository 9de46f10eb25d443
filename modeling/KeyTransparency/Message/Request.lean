import KeyTransparency.Snapshot

/-!
# Requests

What clients ask of directories and of auditors.
-/

namespace KeyTransparency

/-- Which request a directory answers. -/
inductive RequestKind where
  | registration
  | keyLookup
deriving DecidableEq

namespace RequestKind

/-- Both kinds, in the order of their numbers on the wire. -/
def all : List RequestKind := [.registration, .keyLookup]

def codec : Codec RequestKind := Codec.enumeration all

end RequestKind

/-- The wish that a name be bound to a value. -/
structure RegistrationRequest where
  name : String
  value : Bytes
deriving DecidableEq

def RegistrationRequest.codec : Codec RegistrationRequest :=
  (Codec.text.pair Codec.bytes).convert (fun (name, value) => ⟨name, value⟩) fun r => (r.name, r.value)

/-- The question what a name is bound to. -/
structure LookupRequest where
  name : String
deriving DecidableEq

def LookupRequest.codec : Codec LookupRequest := Codec.text.convert LookupRequest.mk LookupRequest.name

/-- The question which snapshots of a directory an auditor holds, from one epoch to
another, both included. -/
structure RangeRequest where
  directory : DirectoryId
  first : Epoch
  last : Epoch
deriving DecidableEq

def RangeRequest.codec : Codec RangeRequest :=
  (DirectoryId.codec.pair (Codec.uint64.pair Codec.uint64)).convert
    (fun (directory, first, last) => ⟨directory, first, last⟩) fun r => (r.directory, r.first, r.last)

end KeyTransparency
