import KeyTransparency.Bytes

/-!
# Quoted characters

How a single character is shown inside a message: between single quotes, with
the control characters, the quote and the backslash escaped
(`Text.quotedLatin`). Only characters that are the value of one byte are shown.
-/

namespace KeyTransparency.Text

/-- Characters of the Latin-1 block that have no glyph: the two ranges of
control characters, delete, the no-break space and the soft hyphen. -/
def hasNoGlyph (n : Nat) : Bool := n < 0x20 || (0x7F ≤ n && n ≤ 0xA0) || n == 0xAD

/-- The character whose code is the byte, between single quotes: short escapes
for the usual control characters, the code in hexadecimal for the others. -/
def quotedLatin (b : UInt8) : String :=
  let n := b.toNat
  let shown :=
    if n = 0x00 then "\\0"
    else if n = 0x09 then "\\t"
    else if n = 0x0A then "\\n"
    else if n = 0x0D then "\\r"
    else if n = 0x27 then "\\'"
    else if n = 0x5C then "\\\\"
    else if hasNoGlyph n then "\\u\x7b" ++ String.ofList (Nat.toDigits 16 n) ++ "\x7d"
    else String.singleton (Char.ofNat n)
  "'" ++ shown ++ "'"

end KeyTransparency.Text
