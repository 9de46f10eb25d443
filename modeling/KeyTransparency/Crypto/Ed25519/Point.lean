import KeyTransparency.Bytes
import KeyTransparency.Crypto.Ed25519.Field

/-!
# Points of the curve of Ed25519

The points of the twisted Edwards curve `−x² + y² = 1 + d x² y²`, in extended
coordinates. Its addition has no exceptional cases (`Point.add`). A point is
written as the 255 bits of `y` and one bit for the parity of `x`
(`Point.encode`). Reading (`Point.decode?`) reduces a `y` that is too large, and
takes the point with `x = 0` with either parity bit; it refuses a `y` that
belongs to no point.
-/

namespace KeyTransparency.Ed25519

open KeyTransparency.Ed25519.Field (prime)

/-- The point with `x = X / Z` and `y = Y / Z`, where `T = X Y / Z`. -/
structure Point where
  x : Nat
  y : Nat
  z : Nat
  t : Nat

namespace Point

/-- The constant `d` of the curve. -/
def d : Nat := (prime - 121665) * Field.inverse 121666 % prime

def neutral : Point := ⟨0, 1, 1, 0⟩

def add (p q : Point) : Point :=
  let a := Field.sub p.y p.x * Field.sub q.y q.x % prime
  let b := (p.y + p.x) * (q.y + q.x) % prime
  let c := p.t * (2 * d) % prime * q.t % prime
  let k := p.z * 2 * q.z % prime
  let e := Field.sub b a
  let f := Field.sub k c
  let g := (k + c) % prime
  let h := (b + a) % prime
  ⟨e * f % prime, g * h % prime, f * g % prime, e * h % prime⟩

def neg (p : Point) : Point := ⟨Field.sub 0 p.x, p.y, p.z, Field.sub 0 p.t⟩

/-- `acc + n p`, for the lowest `digits` binary digits `n` of the factor. -/
def scaleFrom : Nat → Point → Point → Nat → Point
  | 0, acc, _, _ => acc
  | digits + 1, acc, p, n =>
    scaleFrom digits (if n % 2 = 1 then acc.add p else acc) (p.add p) (n / 2)

/-- A multiple of a point, by a factor below 2²⁵⁶. -/
def scale (p : Point) (n : Nat) : Point := scaleFrom 256 neutral p n

def encode (p : Point) : Block32 :=
  let inv := Field.inverse p.z
  let x := p.x * inv % prime
  let y := p.y * inv % prime
  Block32.ofNatLE (y + (x % 2) <<< 255)

/-- The point with the given `y`, and the given parity of `x` unless `x` is zero. -/
def ofY? (y parity : Nat) : Option Point :=
  let u := Field.sub (y * y % prime) 1
  let v := (d * y % prime * y + 1) % prime
  (Field.squareRoot? (u * Field.inverse v % prime)).map fun root =>
    let x := if parity = 0 then root else Field.sub 0 root
    ⟨x, y, 1, x * y % prime⟩

@[irreducible]
def decode? (bytes : Block32) : Option Point :=
  let n := bytes.toNatLE
  ofY? (n % (1 <<< 255) % prime) (n >>> 255)

/-- The base point: `y = 4/5`, and `x` even. -/
def base : Point := (ofY? (4 * Field.inverse 5 % prime) 0).getD neutral

end Point

end KeyTransparency.Ed25519
