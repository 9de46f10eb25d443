import KeyTransparency.Crypto.Ed25519
import KeyTransparency.Digest

/-!
# Snapshots

A directory publishes one snapshot per epoch. It commits to the mapping of the
epoch by its root, links to the snapshot before it by that snapshot's digest,
and is signed with the key of the directory. What is signed (`Snapshot.signedBytes`)
starts with a text that no other kind of signed statement starts with.
-/

namespace KeyTransparency

/-- The number of a snapshot, counted from 0. -/
abbrev Epoch := UInt64

namespace Epoch

/-- The epoch after this one, unless this is the last one there is. -/
def next? (e : Epoch) : Option Epoch := if e.toNat + 1 < UInt64.size then some (e + 1) else none

/-- The epoch before this one, unless this is the first one. -/
def previous? (e : Epoch) : Option Epoch := if e = 0 then none else some (e - 1)

/-- The last epoch there is. -/
def last : Epoch := UInt64.ofNat (UInt64.size - 1)

/-- The number that decimal digits write, after a plus sign or not. -/
def parse? (text : String) : Option Epoch :=
  let digits : List Char := match text.toList with
    | '+' :: cs => cs
    | cs => cs
  let n := digits.foldl (fun n c => 10 * n + (c.toNat - '0'.toNat)) 0
  if digits ≠ [] ∧ digits.all Char.isDigit ∧ n < UInt64.size then some (UInt64.ofNat n) else none

theorem next?_eq_some_iff {e f : Epoch} : e.next? = some f ↔ f.toNat = e.toNat + 1 := by
  have hf := f.toNat_lt_size
  simp only [next?]
  split
  · rename_i h
    have h : e.toNat + 1 < 2 ^ 64 := h
    simp only [Option.some.injEq, ← UInt64.toNat_inj, UInt64.toNat_add, UInt64.toNat_one]
    rw [Nat.mod_eq_of_lt h]
    exact eq_comm
  · simp only [reduceCtorEq, false_iff]
    omega

theorem previous?_eq_some_iff {e f : Epoch} : e.previous? = some f ↔ e.toNat = f.toNat + 1 := by
  have he := e.toNat_lt
  have hf := f.toNat_lt
  simp only [previous?]
  split
  · rename_i h
    subst h
    simp
  · rename_i h
    have h0 : e.toNat ≠ 0 := fun h' => h (UInt64.toNat_inj.mp (by simpa using h'))
    have h1 : (1 : UInt64) ≤ e := by rw [UInt64.le_iff_toNat_le, UInt64.toNat_one]; omega
    simp only [Option.some.injEq, ← UInt64.toNat_inj, UInt64.toNat_sub_of_le _ _ h1,
      UInt64.toNat_one]
    omega

end Epoch

/-- An Ed25519 signature in its two halves. -/
structure Signature where
  r : Block32
  s : Block32
deriving DecidableEq

namespace Signature

/-- The 64 bytes of the signature. -/
def bytes (sig : Signature) : Bytes := sig.r.bytes ++ sig.s.bytes

def codec : Codec Signature :=
  (Codec.block32.pair Codec.block32).convert (fun (r, s) => ⟨r, s⟩) fun sig => (sig.r, sig.s)

end Signature

/-- The bytes of a public key, which need not be a point of the curve. -/
structure PublicKey where
  block : Block32
deriving DecidableEq

namespace PublicKey

def hex (key : PublicKey) : String := key.block.hex

/-- The key with the name of its type. -/
def labelled (key : PublicKey) : String := "PublicKey(" ++ key.hex ++ ")"

/-- Whether the bytes are those of a point. -/
def isPoint (key : PublicKey) : Bool := (Ed25519.Point.decode? key.block).isSome

/-- Whether the signature of the message is valid under the key. Under bytes that
are no point, none is. -/
def verify (key : PublicKey) (message : Bytes) (sig : Signature) : Bool :=
  Ed25519.verify key.block message sig.r sig.s

def codec : Codec PublicKey := Codec.block32.convert PublicKey.mk PublicKey.block

theorem isPoint_of_verify {key : PublicKey} {message : Bytes} {sig : Signature}
    (h : key.verify message sig = true) : key.isPoint = true :=
  Ed25519.isSome_decode?_of_verify h

end PublicKey

/-- The secret of a directory, the seed of an Ed25519 key. -/
structure SigningKey where
  seed : Block32
deriving DecidableEq

namespace SigningKey

def publicKey (sk : SigningKey) : PublicKey := ⟨Ed25519.publicKey sk.seed⟩

def sign (sk : SigningKey) (message : Bytes) : Signature :=
  let (r, s) := Ed25519.sign sk.seed message
  ⟨r, s⟩

end SigningKey

/-- A signed statement of what a directory holds at one epoch. -/
structure Snapshot where
  epoch : Epoch
  /-- What the mapping of names to values at this epoch is proved against. -/
  root : Digest
  /-- The digest of the snapshot before this one; zero in the first snapshot. -/
  previous : Digest
  signature : Signature
deriving DecidableEq

namespace Snapshot

/-- The text that the signed bytes of a snapshot start with. -/
def domain : String := "vouch/snapshot/v1"

/-- What the signature of a snapshot is made for: all its other fields. -/
def signedBytes (epoch : Epoch) (root previous : Digest) : Bytes :=
  Codec.text.encode domain ++
    (Codec.uint64.pair (Digest.codec.pair Digest.codec)).encode (epoch, root, previous)

def sign (sk : SigningKey) (epoch : Epoch) (root previous : Digest) : Snapshot :=
  ⟨epoch, root, previous, sk.sign (signedBytes epoch root previous)⟩

/-- The first snapshot of a directory. -/
def genesis (sk : SigningKey) (root : Digest) : Snapshot := sign sk 0 root Digest.zero

def codec : Codec Snapshot :=
  (Codec.uint64.pair (Digest.codec.pair (Digest.codec.pair Signature.codec))).convert
    (fun (epoch, root, previous, signature) => ⟨epoch, root, previous, signature⟩)
    fun s => (s.epoch, s.root, s.previous, s.signature)

/-- The snapshot in bytes, its signature included. -/
def encode (s : Snapshot) : Bytes := codec.encode s

/-- The hash of the snapshot in bytes, to which the next snapshot links. -/
def digest (s : Snapshot) : Digest := Digest.ofData s.encode

/-- The identity of the directory that starts with this snapshot. -/
def directoryId (s : Snapshot) : DirectoryId := DirectoryId.ofDigest s.digest

/-- The snapshot after this one, which must not be at the last epoch. -/
def successor (s : Snapshot) (sk : SigningKey) (root : Digest) : Snapshot :=
  sign sk (s.epoch + 1) root s.digest

/-- The snapshot with the given root after another one, or the first one. -/
def next (before : Option Snapshot) (sk : SigningKey) (root : Digest) : Snapshot :=
  match before with
  | some s => s.successor sk root
  | none => genesis sk root

/-- The snapshots with the given roots, one after the other. -/
def chain (sk : SigningKey) : (before : Option Snapshot) → (roots : List Digest) → List Snapshot
  | _, [] => []
  | before, root :: roots =>
    let s := next before sk root
    s :: chain sk (some s) roots

def hasValidSignature (s : Snapshot) (key : PublicKey) : Bool :=
  key.verify (signedBytes s.epoch s.root s.previous) s.signature

end Snapshot

end KeyTransparency
