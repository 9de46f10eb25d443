import KeyTransparency.Crypto.Ed25519.Point
import KeyTransparency.Crypto.Sha512

/-!
# Ed25519 signatures

Signing keys are 32-byte seeds. A signature has two halves of 32 bytes, a point
`R` and a number `s`. It is accepted (`verify`) if `s` is below the order of
the base point `B`, the key `A` decodes to a point, and `s B − k A` is written
exactly as `R`, where `k` is the hash of `R`, the key and the message: no
cofactor is multiplied out, and keys of small order are taken.
-/

namespace KeyTransparency.Ed25519

/-- The order of the base point. -/
def order : Nat := 1 <<< 252 + 27742317777372353535851937790883648493

/-- The hash of a message as a factor of points. -/
def hashFactor (bs : Bytes) : Nat := Bytes.toNatLE (sha512 bs) % order

/-- The secret factor of a seed: the first half of the hash, with its three lowest
bits and its highest bit cleared and its second highest bit set. -/
def secretFactor (seed : Block32) : Nat :=
  let n := Bytes.toNatLE ((sha512 seed.bytes).take 32) % (1 <<< 254)
  (n - n % 8 + 1 <<< 254) % order

@[irreducible]
def publicKey (seed : Block32) : Block32 := (Point.base.scale (secretFactor seed)).encode

/-- The two halves of the signature of a message. -/
@[irreducible]
def sign (seed : Block32) (message : Bytes) : Block32 × Block32 :=
  let nonce := hashFactor ((sha512 seed.bytes).drop 32 ++ message)
  let r := (Point.base.scale nonce).encode
  let k := hashFactor (r.bytes ++ (publicKey seed).bytes ++ message)
  (r, Block32.ofNatLE ((nonce + k * secretFactor seed) % order))

/-- Whether the halves of a signature belong to the message, under the key that
is written as `key` and decodes to the point `a`. -/
def verifyAt (key : Block32) (a : Point) (message : Bytes) (r s : Block32) : Bool :=
  let k := hashFactor (r.bytes ++ key.bytes ++ message)
  s.toNatLE < order && ((Point.base.scale s.toNatLE).add (a.neg.scale k)).encode == r

@[irreducible]
def verify (key : Block32) (message : Bytes) (r s : Block32) : Bool :=
  (Point.decode? key).any fun a => verifyAt key a message r s

theorem isSome_decode?_of_verify {key r s : Block32} {message : Bytes}
    (h : verify key message r s = true) : (Point.decode? key).isSome = true := by
  rw [verify] at h
  cases hp : Point.decode? key with
  | none => rw [hp] at h; simp at h
  | some a => rfl

end KeyTransparency.Ed25519
