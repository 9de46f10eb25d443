/-!
# Blank characters

The characters with the Unicode property `White_Space` (`Text.isBlank`), and
text without its leading and trailing blanks (`Text.trimBlank`).
-/

namespace KeyTransparency.Text

/-- The first and last code point of each run of characters with the property `White_Space`. -/
def blankRanges : List (Nat × Nat) :=
  [(0x0009, 0x000D), (0x0020, 0x0020), (0x0085, 0x0085), (0x00A0, 0x00A0), (0x1680, 0x1680),
   (0x2000, 0x200A), (0x2028, 0x2029), (0x202F, 0x202F), (0x205F, 0x205F), (0x3000, 0x3000)]

def isBlank (c : Char) : Bool :=
  blankRanges.any fun (first, last) => first ≤ c.toNat && c.toNat ≤ last

/-- The characters left when blanks are dropped at both ends. -/
def trimChars (cs : List Char) : List Char :=
  ((cs.dropWhile isBlank).reverse.dropWhile isBlank).reverse

def trimBlank (s : String) : String := String.ofList (trimChars s.toList)

theorem trimBlank_toList (s : String) : (trimBlank s).toList = trimChars s.toList := by
  simp [trimBlank]

end KeyTransparency.Text
