import KeyTransparency.Message.Promise
import KeyTransparency.Status

/-!
# Responses

Directories answer with snapshots and a proof about a name (`MappingProof`),
auditors with snapshots alone. Either travels in a `Response`, behind a status
code. A response is taken only if its snapshots are at least one and have
consecutive epochs (`Response.validate`).
-/

namespace KeyTransparency

/-- The shape that a response should have had. -/
inductive ShapeFault where
  | missingBody
  | noSnapshots
  | notConsecutive
  | notAProof
  | notAHistory
deriving DecidableEq

def ShapeFault.message : ShapeFault → String
  | .missingBody => "missing response body"
  | .noSnapshots => "empty snapshot list"
  | .notConsecutive => "non-contiguous snapshot list"
  | .notAProof => "expected a directory proof"
  | .notAHistory => "expected a snapshot history"

/-- Why a response is of no use. -/
inductive MessageError where
  /-- The peer reports a failure. -/
  | failure (status : Status)
  | malformed (fault : ShapeFault)
  | undecodable (cause : DecodeError)
deriving DecidableEq

namespace MessageError

def message : MessageError → String
  | failure status => "peer returned status: " ++ status.message
  | malformed fault => "malformed message: " ++ fault.message
  | undecodable cause => "serialization error: " ++ cause.message

def status : MessageError → Status
  | failure status => status
  | malformed _ | undecodable _ => .malformedMessage

end MessageError

/-- The answer of a directory about a name. -/
structure MappingProof where
  /-- The snapshot that the proof is made for, after those that lead up to it. -/
  snapshots : List Snapshot
  /-- The proof, in a form that depends on the mapping. -/
  proof : Bytes
  promise : Option Promise
deriving DecidableEq

namespace MappingProof

/-- The snapshot that the proof is made for. -/
def latest? (p : MappingProof) : Option Snapshot := p.snapshots.getLast?

def codec : Codec MappingProof :=
  ((Codec.list Snapshot.codec).pair (Codec.bytes.pair (Codec.option Promise.codec))).convert
    (fun (snapshots, proof, promise) => ⟨snapshots, proof, promise⟩)
    fun p => (p.snapshots, p.proof, p.promise)

end MappingProof

/-- What a successful response carries. -/
inductive Body where
  | proof (content : MappingProof)
  | history (snapshots : List Snapshot)
deriving DecidableEq

namespace Body

def snapshots : Body → List Snapshot
  | proof content => content.snapshots
  | history snapshots => snapshots

def codec : Codec Body :=
  (MappingProof.codec.either (Codec.list Snapshot.codec)).convert
    (fun
      | .inl content => proof content
      | .inr snapshots => history snapshots)
    fun
      | proof content => .inl content
      | history snapshots => .inr snapshots

end Body

structure Response where
  status : Status
  body : Option Body
deriving DecidableEq

/-- Whether every epoch is the one after the epoch before it. -/
def consecutive : List Snapshot → Bool
  | a :: b :: rest => a.epoch.next? = some b.epoch && consecutive (b :: rest)
  | _ => true

namespace Response

/-- A failure, without a body. -/
def failure (status : Status) : Response := ⟨status, none⟩

def ofProof (content : MappingProof) : Response := ⟨.ok, some (.proof content)⟩

def ofHistory (snapshots : List Snapshot) : Response := ⟨.ok, some (.history snapshots)⟩

/-- The body of a successful response of the right shape. -/
def validate (r : Response) : Except MessageError Body :=
  if !r.status.isOk then .error (.failure r.status)
  else
    match r.body with
    | none => .error (.malformed .missingBody)
    | some body =>
      if body.snapshots.isEmpty then .error (.malformed .noSnapshots)
      else if !consecutive body.snapshots then .error (.malformed .notConsecutive)
      else .ok body

/-- The answer of a directory. -/
def asProof (r : Response) : Except MessageError MappingProof := do
  match ← r.validate with
  | .proof content => return content
  | .history _ => .error (.malformed .notAProof)

/-- The answer of an auditor. -/
def asHistory (r : Response) : Except MessageError (List Snapshot) := do
  match ← r.validate with
  | .history snapshots => return snapshots
  | .proof _ => .error (.malformed .notAHistory)

def codec : Codec Response :=
  (Status.codec.pair (Codec.option Body.codec)).convert (fun (status, body) => ⟨status, body⟩)
    fun r => (r.status, r.body)

def toBytes (r : Response) : Bytes := codec.encode r

def ofBytes (bs : Bytes) : Except MessageError Response :=
  match codec.read bs with
  | .ok r => .ok r
  | .error cause => .error (.undecodable cause)

end Response

end KeyTransparency
