import KeyTransparency.Text.Quoted
import KeyTransparency.Text.Utf8

/-!
# Hexadecimal

Bytes are written as pairs of lower-case hexadecimal digits (`Hex.encode`).
Reading (`Hex.decode`) takes digits of either case, and refuses an odd number
of bytes before it looks at any of them.

* `Hex.Spells.decode_eq`: digits are read as the bytes that they spell;
* `Hex.decode_encodeBytes`: what is written reads back.
-/

namespace KeyTransparency.Hex

/-- Why a text is no hexadecimal. Positions count bytes from 0. -/
inductive Error where
  | oddLength
  | invalidCharacter (byte : UInt8) (position : Nat)
deriving DecidableEq

def Error.message : Error → String
  | .oddLength => "Odd number of digits"
  | .invalidCharacter byte position =>
    "Invalid character " ++ Text.quotedLatin byte ++ " at position " ++ toString position

/-- The lower-case digit of a number below 16. -/
def digit (n : Nat) : UInt8 := UInt8.ofNat (if n < 10 then 48 + n else 87 + n)

/-- The value of a digit of either case. -/
def value? (b : UInt8) : Option Nat :=
  let n := b.toNat
  if 48 ≤ n ∧ n ≤ 57 then some (n - 48)
  else if 97 ≤ n ∧ n ≤ 102 then some (n - 87)
  else if 65 ≤ n ∧ n ≤ 70 then some (n - 55)
  else none

/-- Two lower-case digits for every byte, in ASCII. -/
def encodeBytes (bs : Bytes) : Bytes :=
  bs.flatMap fun b => [digit (b.toNat / 16), digit (b.toNat % 16)]

/-- The digits of `encodeBytes` as text. -/
def encode (bs : Bytes) : String :=
  String.ofList ((encodeBytes bs).map fun b => Char.ofNat b.toNat)

/-- Reads pairs of digits, the first of them at the given position. -/
def decodePairs (position : Nat) : Bytes → Except Error Bytes
  | high :: low :: rest =>
    match value? high, value? low with
    | none, _ => .error (.invalidCharacter high position)
    | some _, none => .error (.invalidCharacter low (position + 1))
    | some h, some l => (decodePairs (position + 2) rest).map (UInt8.ofNat (16 * h + l) :: ·)
  | _ => .ok []

def decode (bs : Bytes) : Except Error Bytes :=
  if bs.length % 2 = 1 then .error .oddLength else decodePairs 0 bs

theorem value?_digit {n : Nat} (h : n < 16) : value? (digit n) = some n := by
  rcases (by omega : n < 10 ∨ 10 ≤ n) with hn | hn
  · simp only [digit, if_pos hn, value?, UInt8.toNat_ofNat']
    rw [if_pos (by omega)]
    congr 1
    omega
  · simp only [digit, if_neg (show ¬ n < 10 by omega), value?, UInt8.toNat_ofNat']
    rw [if_neg (by omega), if_pos (by omega)]
    congr 1
    omega

theorem encodeBytes_cons (b : UInt8) (bs : Bytes) :
    encodeBytes (b :: bs) = digit (b.toNat / 16) :: digit (b.toNat % 16) :: encodeBytes bs := rfl

/-- The digits, of either case, spell the bytes: two of them for each byte, the higher half first. -/
inductive Spells : Bytes → Bytes → Prop
  | nil : Spells [] []
  | cons {high low : UInt8} {h l : Nat} {digits bs : Bytes} : value? high = some h →
      value? low = some l → Spells digits bs → Spells (high :: low :: digits) (UInt8.ofNat (16 * h + l) :: bs)

theorem spells_encodeBytes (bs : Bytes) : Spells (encodeBytes bs) bs := by
  induction bs with
  | nil => exact .nil
  | cons b bs ih =>
    have hb := b.toNat_lt
    have hv : UInt8.ofNat (16 * (b.toNat / 16) + b.toNat % 16) = b := by
      rw [show 16 * (b.toNat / 16) + b.toNat % 16 = b.toNat by omega]
      exact UInt8.ofNat_toNat
    have hcons := Spells.cons (value?_digit (show b.toNat / 16 < 16 by omega))
      (value?_digit (show b.toNat % 16 < 16 by omega)) ih
    rwa [hv] at hcons

namespace Spells

variable {digits bs : Bytes} (h : Spells digits bs)

include h

theorem length_eq : digits.length = 2 * bs.length := by
  induction h with
  | nil => rfl
  | cons _ _ _ ih =>
    rw [List.length_cons, List.length_cons, List.length_cons, ih]
    omega

theorem decodePairs_eq (position : Nat) : decodePairs position digits = .ok bs := by
  induction h generalizing position with
  | nil => rfl
  | cons hhigh hlow _ ih =>
    rw [decodePairs, hhigh, hlow]
    simp only [ih]
    rfl

theorem decode_eq : decode digits = .ok bs := by
  have hlength := h.length_eq
  rw [decode, if_neg (by omega), h.decodePairs_eq]

end Spells

/-- What is written reads back. -/
theorem decode_encodeBytes (bs : Bytes) : decode (encodeBytes bs) = .ok bs :=
  (spells_encodeBytes bs).decode_eq

end KeyTransparency.Hex
