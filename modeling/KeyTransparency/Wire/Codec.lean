import KeyTransparency.Text.Utf8
import KeyTransparency.Wire.Varint

/-!
# Codecs

A codec writes values as bytes and reads one value from the front of a byte
string, leaving the bytes after it. Codecs of larger values are put together
from those of their parts:

* `Codec.byte`, `Codec.block32`, `Codec.varint`, `Codec.uint64`: single values of
  a known kind;
* `Codec.bytes`, `Codec.text`, `Codec.list`, `Codec.mapping`: a length, then that many
  bytes or elements;
* `Codec.option`, `Codec.either`, `Codec.enumeration`: a number that says which
  alternative follows;
* `Codec.pair`, `Codec.convert`: two values one after the other, and the same bytes
  for another type.

A whole message is read with `Codec.read`, which ignores what follows the value.
-/

namespace KeyTransparency

/-- A writer, and a reader of the value in front of a byte string. -/
structure Codec (α : Type) where
  encode : α → Bytes
  decode : Bytes → Except DecodeError (α × Bytes)

namespace Codec

variable {α β : Type}

/-- The value in front of a byte string, whatever follows it. -/
def read (c : Codec α) (bs : Bytes) : Except DecodeError α := (c.decode bs).map (·.1)

/-! ## Single values -/

def byte : Codec UInt8 where
  encode b := [b]
  decode
    | [] => .error .unexpectedEnd
    | b :: rest => .ok (b, rest)

/-- The bytes of the block, without a length. -/
def block32 : Codec Block32 where
  encode a := a.bytes
  decode bs :=
    if h : 32 ≤ bs.length then .ok (⟨bs.take 32, by simp [h]⟩, bs.drop 32)
    else .error .unexpectedEnd

/-- Numbers below `2 ^ bits`. -/
def varint (bits : Nat) : Codec Nat := ⟨Varint.encode, Varint.decode bits⟩

/-- A length, which is a number below `2 ^ 64`. -/
def length : Codec Nat := varint 64

/-- The number of an alternative, which is below `2 ^ 32`. -/
def discriminant : Codec Nat := varint 32

/-! ## The same bytes for another type -/

/-- Values of another type with the same content. -/
def convert (c : Codec α) (pack : α → β) (unpack : β → α) : Codec β where
  encode b := c.encode (unpack b)
  decode bs := (c.decode bs).map fun (a, rest) => (pack a, rest)

def uint64 : Codec UInt64 := (varint 64).convert UInt64.ofNat UInt64.toNat

/-! ## Several values -/

def pair (c : Codec α) (e : Codec β) : Codec (α × β) where
  encode v := c.encode v.1 ++ e.encode v.2
  decode bs := do
    let (a, bs) ← c.decode bs
    let (b, bs) ← e.decode bs
    return ((a, b), bs)

/-- Reads the given number of values. -/
def decodeMany (c : Codec α) : Nat → Bytes → Except DecodeError (List α × Bytes)
  | 0, bs => .ok ([], bs)
  | n + 1, bs => do
    let (a, bs) ← c.decode bs
    let (as, bs) ← decodeMany c n bs
    return (a :: as, bs)

/-- The number of elements, then the elements. -/
def list (c : Codec α) : Codec (List α) where
  encode as := length.encode as.length ++ as.flatMap c.encode
  decode bs := do
    let (n, bs) ← length.decode bs
    decodeMany c n bs

/-- The number of bytes, then the bytes. -/
def bytes : Codec Bytes where
  encode bs := length.encode bs.length ++ bs
  decode bs := do
    let (n, bs) ← length.decode bs
    if n ≤ bs.length then .ok (bs.take n, bs.drop n) else .error .unexpectedEnd

/-- The number of bytes in UTF-8, then those bytes. -/
def text : Codec String where
  encode s := bytes.encode (Text.utf8 s)
  decode bs := do
    let (utf8, bs) ← bytes.decode bs
    match Text.ofUtf8? utf8 with
    | some s => .ok (s, bs)
    | none => .error .badText

/-- The pairs of key and value, keys ascending. Of two pairs with the same key the later one is taken. -/
def mapping [Ord α] [Std.TransOrd α] (c : Codec α) (e : Codec β) : Codec (Std.ExtTreeMap α β) :=
  (list (pair c e)).convert (Std.ExtTreeMap.ofList ·) (·.toList)

/-! ## Alternatives -/

/-- The byte 0, or the byte 1 and the value. -/
def option (c : Codec α) : Codec (Option α) where
  encode
    | none => [0]
    | some a => 1 :: c.encode a
  decode bs := do
    let (tag, bs) ← byte.decode bs
    if tag = 0 then return (none, bs)
    else if tag = 1 then
      let (a, bs) ← c.decode bs
      return (some a, bs)
    else .error .badOption

/-- The number 0 and a value of the first type, or the number 1 and one of the second. -/
def either (c : Codec α) (e : Codec β) : Codec (α ⊕ β) where
  encode
    | .inl a => discriminant.encode 0 ++ c.encode a
    | .inr b => discriminant.encode 1 ++ e.encode b
  decode bs := do
    let (tag, bs) ← discriminant.decode bs
    if tag = 0 then
      let (a, bs) ← c.decode bs
      return (.inl a, bs)
    else if tag = 1 then
      let (b, bs) ← e.decode bs
      return (.inr b, bs)
    else .error .unknownVariant

/-- The position of a value in the list of all values of its type. -/
def enumeration [DecidableEq α] (all : List α) : Codec α where
  encode a := discriminant.encode (all.idxOf a)
  decode bs := do
    let (n, bs) ← discriminant.decode bs
    match all[n]? with
    | some a => .ok (a, bs)
    | none => .error .unknownVariant

end Codec

end KeyTransparency
