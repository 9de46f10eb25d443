import KeyTransparency.Bytes

/-!
# Variable-length integers

A number is written in groups of seven bits, the lowest group first, in bytes
of which every one but the last has its high bit set (`Varint.encode`). Reading
(`Varint.decode`) takes longer spellings of a number too, as long as they have
no more groups than the largest number allowed.
-/

namespace KeyTransparency

/-- Why bytes cannot be read as a value. -/
inductive DecodeError where
  /-- The bytes end inside the value. -/
  | unexpectedEnd
  /-- A number with too many groups, or a number that is too large. -/
  | badVarint
  /-- The byte that says whether a value is present is neither 0 nor 1. -/
  | badOption
  /-- A text that is not UTF-8. -/
  | badText
  /-- The number of an alternative that does not exist. -/
  | unknownVariant
deriving DecidableEq

def DecodeError.message : DecodeError → String
  | .unexpectedEnd => "Hit the end of buffer, expected more data"
  | .badVarint => "Found a varint that didn't terminate. Is the usize too big for this platform?"
  | .badOption => "Found an Option discriminant that wasn't 0 or 1"
  | .badText => "Tried to parse invalid utf-8"
  | .unknownVariant => "Serde Deserialization Error"

namespace Varint

/-- The shortest spelling of a number. -/
def encode (n : Nat) : Bytes :=
  if n < 128 then [UInt8.ofNat n] else UInt8.ofNat (n % 128 + 128) :: encode (n / 128)
termination_by n

/-- The number in front of `bytes`, in at most `limit` groups, and the bytes after it. -/
def decodeGroups : (limit : Nat) → (bytes : Bytes) → Except DecodeError (Nat × Bytes)
  | 0, _ => .error .badVarint
  | _ + 1, [] => .error .unexpectedEnd
  | limit + 1, b :: rest =>
    if b.toNat < 128 then .ok (b.toNat, rest)
    else (decodeGroups limit rest).map fun (n, rest) => (b.toNat - 128 + 128 * n, rest)

/-- The number in front of `bytes`, below `2 ^ bits`, and the bytes after it. -/
def decode (bits : Nat) (bytes : Bytes) : Except DecodeError (Nat × Bytes) := do
  let (n, rest) ← decodeGroups ((bits + 6) / 7) bytes
  if n < 1 <<< bits then .ok (n, rest) else .error .badVarint

end Varint

end KeyTransparency
