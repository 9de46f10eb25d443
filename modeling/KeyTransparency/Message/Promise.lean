import KeyTransparency.Snapshot

/-!
# Registration promises

A name registered during an epoch is not in the mapping of that epoch, which is
signed already. The directory answers with a promise instead: signed with its key,
tied to the snapshot of the epoch, that the name will have the value from the next
epoch on (`Promise.dueEpoch`).
-/

namespace KeyTransparency

structure Promise where
  name : String
  value : Bytes
  /-- The digest of the snapshot under which the promise was made. -/
  snapshotDigest : Digest
  /-- The epoch of that snapshot. -/
  issuedAt : Epoch
  signature : Signature
deriving DecidableEq

namespace Promise

/-- The text that the signed bytes of a promise start with. -/
def domain : String := "vouch/temporary-binding/v1"

/-- What the signature of a promise is made for: all its other fields. -/
def signedBytes (name : String) (value : Bytes) (snapshotDigest : Digest) (issuedAt : Epoch) : Bytes :=
  Codec.text.encode domain ++
    (Codec.text.pair (Codec.bytes.pair (Digest.codec.pair Codec.uint64))).encode
      (name, value, snapshotDigest, issuedAt)

/-- The promise made under the given snapshot. -/
def sign (sk : SigningKey) (name : String) (value : Bytes) (under : Snapshot) : Promise :=
  ⟨name, value, under.digest, under.epoch,
    sk.sign (signedBytes name value under.digest under.epoch)⟩

def codec : Codec Promise :=
  (Codec.text.pair (Codec.bytes.pair (Digest.codec.pair (Codec.uint64.pair Signature.codec)))).convert
    (fun (name, value, snapshotDigest, issuedAt, signature) =>
      ⟨name, value, snapshotDigest, issuedAt, signature⟩)
    fun p => (p.name, p.value, p.snapshotDigest, p.issuedAt, p.signature)

/-- The epoch from which on the name has to have the value. A promise made at the
last epoch is never due. -/
def dueEpoch (p : Promise) : Option Epoch := p.issuedAt.next?

/-- A promise is due at the epochs after the one it was issued at. -/
theorem exists_due_le_iff {p : Promise} {e : Epoch} : (∃ due, p.dueEpoch = some due ∧ due ≤ e) ↔ p.issuedAt < e := by
  rw [dueEpoch, UInt64.lt_iff_toNat_lt]
  constructor
  · rintro ⟨due, hdue, hle⟩
    rw [Epoch.next?_eq_some_iff] at hdue
    rw [UInt64.le_iff_toNat_le] at hle
    omega
  · intro hlt
    have hnext : p.issuedAt.next? = some (p.issuedAt + 1) := if_pos (Nat.lt_of_le_of_lt hlt e.toNat_lt)
    refine ⟨_, hnext, ?_⟩
    rw [UInt64.le_iff_toNat_le, Epoch.next?_eq_some_iff.mp hnext]
    exact hlt

/-- Whether the promise was made under the given snapshot. -/
def isBoundTo (p : Promise) (s : Snapshot) : Bool :=
  p.issuedAt = s.epoch && p.snapshotDigest = s.digest

def hasValidSignature (p : Promise) (key : PublicKey) : Bool :=
  key.verify (signedBytes p.name p.value p.snapshotDigest p.issuedAt) p.signature

end Promise

end KeyTransparency
