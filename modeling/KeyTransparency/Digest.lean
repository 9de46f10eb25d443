import KeyTransparency.Crypto.Blake3
import KeyTransparency.Text.Blank
import KeyTransparency.Text.Hex
import KeyTransparency.Wire.Codec

/-!
# Digests and identities

A digest is a BLAKE3 hash: of a snapshot, of a mapping, of any data. The
identity of a directory is the digest of its first snapshot. Both are shown as
64 lower-case hexadecimal digits (`Block32.hex`), and read from digits of either
case between blanks (`Block32.parse`).
-/

namespace KeyTransparency

/-- Why a text does not name a block of 32 bytes. -/
inductive ParseError where
  | invalidHex (cause : Hex.Error)
  | wrongLength (length : Nat)
deriving DecidableEq

def ParseError.message : ParseError → String
  | .invalidHex cause => "invalid hex: " ++ cause.message
  | .wrongLength length => "expected 32 bytes, got " ++ toString length

namespace Block32

/-- The bytes as 64 lower-case hexadecimal digits. -/
def hex (a : Block32) : String := Hex.encode a.bytes

/-- The block that a text names, blanks around the digits aside. -/
def parse (text : String) : Except ParseError Block32 :=
  match Hex.decode (Text.utf8 (Text.trimBlank text)) with
  | .error cause => .error (.invalidHex cause)
  | .ok bs =>
    match ofBytes? bs with
    | some a => .ok a
    | none => .error (.wrongLength bs.length)

end Block32

/-- A BLAKE3 hash. -/
structure Digest where
  block : Block32
deriving DecidableEq

namespace Digest

/-- The digest that stands for no predecessor. -/
def zero : Digest := ⟨Block32.replicate 0⟩

def ofData (data : Bytes) : Digest := ⟨blake3 data⟩

def parse (text : String) : Except ParseError Digest := (Block32.parse text).map Digest.mk

def hex (d : Digest) : String := d.block.hex

/-- The digest with the name of its type. -/
def labelled (d : Digest) : String := "Digest(" ++ d.hex ++ ")"

def codec : Codec Digest := Codec.block32.convert Digest.mk Digest.block

end Digest

/-- The identity of a directory: the digest of its first snapshot, which no later
change of address affects. -/
structure DirectoryId where
  block : Block32
deriving DecidableEq

namespace DirectoryId

def ofDigest (d : Digest) : DirectoryId := ⟨d.block⟩

def ofData (data : Bytes) : DirectoryId := ⟨blake3 data⟩

def parse (text : String) : Except ParseError DirectoryId :=
  (Block32.parse text).map DirectoryId.mk

def hex (id : DirectoryId) : String := id.block.hex

/-- The identity with the name of its type. -/
def labelled (id : DirectoryId) : String := "DirectoryId(" ++ id.hex ++ ")"

def codec : Codec DirectoryId := Codec.block32.convert DirectoryId.mk DirectoryId.block

/-- Identities are ordered by their bytes. -/
instance : Ord DirectoryId := ⟨fun a b => compare a.block b.block⟩

instance : Std.TransOrd DirectoryId where
  eq_swap {a b} :=
    show compare a.block b.block = (compare b.block a.block).swap from Std.OrientedCmp.eq_swap
  isLE_trans {a b c} hab hbc :=
    have hab : (compare a.block b.block).isLE := hab
    have hbc : (compare b.block c.block).isLE := hbc
    show (compare a.block c.block).isLE from Std.TransCmp.isLE_trans hab hbc

instance : Std.LawfulEqOrd DirectoryId where
  eq_of_compare {a b} h := by
    have : a.block = b.block := Std.compare_eq_iff_eq.mp h
    cases a; cases b; simp_all

end DirectoryId

end KeyTransparency
