import KeyTransparency.Message.Request
import KeyTransparency.Message.Response
import KeyTransparency.Simulation.Commitment

/-!
# A simulated directory

A directory that publishes a commitment to its whole mapping at every epoch
(`Directory.publish`), and answers registrations and lookups. A registration during
an epoch takes effect at the next one, which the directory promises. A directory
can be split in two that share their past (`Directory.fork`), and go on with the
same key.
-/

namespace KeyTransparency

/-- What a directory published at one epoch. -/
structure Publication where
  snapshot : Snapshot
  /-- The proof about every name at this epoch. -/
  proof : Bytes
deriving DecidableEq

structure Directory where
  key : SigningKey
  salt : Bytes
  /-- The mapping of the latest publication. -/
  committed : Mapping
  /-- The mapping of the next publication. -/
  pending : Mapping
  /-- The publications before the latest one, the one of epoch 0 first. -/
  earlier : List Publication
  latest : Publication
deriving DecidableEq

namespace Directory

/-- A directory at epoch 0, without names. -/
def create (key : SigningKey) : Directory :=
  let commitment : Commitment := ⟨[], ∅⟩
  { key, salt := [], committed := ∅, pending := ∅, earlier := []
    latest := ⟨Snapshot.genesis key commitment.root, commitment.proof⟩ }

def publicKey (d : Directory) : PublicKey := d.key.publicKey

def publications (d : Directory) : List Publication := d.earlier ++ [d.latest]

def snapshots (d : Directory) : List Snapshot := d.publications.map (·.snapshot)

def epoch (d : Directory) : Epoch := d.latest.snapshot.epoch

/-- The digest of the first snapshot. -/
def id (d : Directory) : DirectoryId :=
  ((d.earlier.head?.getD d.latest).snapshot).directoryId

/-- The snapshots from one epoch to another, both included, unless they end after
the latest one or start more than one after the end. -/
def range? (d : Directory) (first last : Epoch) : Option (List Snapshot) :=
  if first.toNat ≤ last.toNat + 1 ∧ last.toNat < d.publications.length then
    some ((d.snapshots.drop first.toNat).take (last.toNat + 1 - first.toNat))
  else none

/-- The directory's own account of its history. -/
def historyResponse? (d : Directory) (first last : Epoch) : Option Response :=
  (d.range? first last).map Response.ofHistory

/-- Takes a registration for the next epoch. A name that has the value already is
answered with a proof, a name that waits for another value is refused, and any
other is promised. -/
def register (d : Directory) (request : RegistrationRequest) : Response × Directory :=
  if d.committed[request.name]? = some request.value then
    (Response.ofProof ⟨[d.latest.snapshot], d.latest.proof, none⟩, d)
  else if d.pending.contains request.name then (Response.failure .alreadyExists, d)
  else
    let promise := Promise.sign d.key request.name request.value d.latest.snapshot
    (Response.ofProof ⟨[d.latest.snapshot], d.latest.proof, some promise⟩,
      { d with pending := d.pending.insert request.name request.value })

/-- The answer to a lookup as of an epoch that has been published. -/
def lookupAt? (d : Directory) (epoch : Epoch) : Option Response :=
  (d.publications[epoch.toNat]?).map fun p => Response.ofProof ⟨[p.snapshot], p.proof, none⟩

/-- The answer to a lookup as of the latest epoch. -/
def lookup (d : Directory) : Response :=
  Response.ofProof ⟨[d.latest.snapshot], d.latest.proof, none⟩

/-- The answer to a lookup as of the latest epoch, with all snapshots after the epoch
`since`, which must have been published. -/
def lookupSince? (d : Directory) (since : Epoch) : Option Response :=
  if since.toNat < d.publications.length then
    some (Response.ofProof ⟨d.snapshots.drop (since.toNat + 1), d.latest.proof, none⟩)
  else none

/-- Publishes what has been registered, in a new snapshot. -/
def publish (d : Directory) : Directory :=
  let commitment : Commitment := ⟨d.salt, d.pending⟩
  { d with
    committed := d.pending
    earlier := d.earlier ++ [d.latest]
    latest := ⟨d.latest.snapshot.successor d.key commitment.root, commitment.proof⟩ }

/-- A directory with the same past, whose publications from now on are salted with `tag`. -/
def fork (d : Directory) (tag : String) : Directory := { d with salt := Text.utf8 tag }

end Directory

end KeyTransparency
