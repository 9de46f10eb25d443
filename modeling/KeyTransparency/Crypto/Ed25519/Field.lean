/-!
# Arithmetic modulo 2²⁵⁵ − 19

The coordinates of points are natural numbers below the prime
(`Field.prime`). Powers are computed from the binary digits of the exponent
(`Field.power`); the inverse and the square root are powers
(`Field.inverse`, `Field.squareRoot?`).
-/

namespace KeyTransparency.Ed25519.Field

def prime : Nat := 1 <<< 255 - 19

/-- The difference of two numbers, the second one below the prime. -/
def sub (a b : Nat) : Nat := (a + (prime - b)) % prime

/-- `acc * base ^ e`, for the lowest `digits` binary digits `e` of the exponent. -/
def powerFrom : Nat → Nat → Nat → Nat → Nat
  | 0, acc, _, _ => acc
  | digits + 1, acc, base, e =>
    powerFrom digits (if e % 2 = 1 then acc * base % prime else acc) (base * base % prime) (e / 2)

/-- A power with an exponent below 2²⁵⁶. -/
def power (base e : Nat) : Nat := powerFrom 256 1 base e

/-- The inverse of a number that is not a multiple of the prime. -/
def inverse (a : Nat) : Nat := power a (prime - 2)

/-- A square root of −1. -/
def rootOfMinusOne : Nat := power 2 ((prime - 1) / 4)

/-- The even square root of a number below the prime, if it has a square root. -/
def squareRoot? (a : Nat) : Option Nat :=
  let x := power a ((prime + 3) / 8)
  let x := if x * x % prime = a then x else x * rootOfMinusOne % prime
  if x * x % prime = a then some (if x % 2 = 0 then x else prime - x) else none

end KeyTransparency.Ed25519.Field
