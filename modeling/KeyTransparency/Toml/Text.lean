import KeyTransparency.Toml.Lexeme

/-!
# Texts of TOML

Readers of the four kinds of texts: with escapes between double quotes, as they stand
between single quotes, and either kind over several lines between three quotes.
-/

namespace KeyTransparency.Toml

/-- The character with a code in exactly `n` hexadecimal digits. -/
def codePoint (n : Nat) : Reader Char := fun cs =>
  let ds := cs.take n
  let code := numeral 16 ds
  if ds.length = n ∧ ds.all isHexDigit ∧ code.isValidChar then some (Char.ofNat code, cs.drop n)
  else none

/-- The character that an escape stands for, after the backslash. -/
def escape : Reader Char
  | 'b' :: cs => some ('\x08', cs)
  | 't' :: cs => some ('\t', cs)
  | 'n' :: cs => some ('\n', cs)
  | 'f' :: cs => some ('\x0c', cs)
  | 'r' :: cs => some ('\r', cs)
  | '"' :: cs => some ('"', cs)
  | '\\' :: cs => some ('\\', cs)
  | 'u' :: cs => codePoint 4 cs
  | 'U' :: cs => codePoint 8 cs
  | _ => none

/-- The rest of a text between double quotes. -/
def basicRest : (fuel : Nat) → Reader (List Char)
  | 0, _ => none
  | _ + 1, '"' :: cs => some ([], cs)
  | fuel + 1, '\\' :: cs => do
    let (c, cs) ← escape cs
    let (rest, cs) ← basicRest fuel cs
    some (c :: rest, cs)
  | fuel + 1, c :: cs =>
    if isPlain c then (basicRest fuel cs).map fun (rest, cs) => (c :: rest, cs) else none
  | _ + 1, [] => none

/-- The rest of a text between single quotes. -/
def literalRest : Reader (List Char)
  | '\'' :: cs => some ([], cs)
  | c :: cs => if isPlain c then (literalRest cs).map fun (rest, cs) => (c :: rest, cs) else none
  | [] => none

/-- The quotes in front of the text that belong to the content when a text over several lines ends
there, if it does: of up to five quotes in a row the last three end it. -/
def closing (quote : Char) (cs : List Char) : Option (List Char × List Char) :=
  let n := (cs.takeWhile (· == quote)).length
  if 3 ≤ n then
    let kept := min (n - 3) 2
    some (List.replicate kept quote, cs.drop (kept + 3))
  else none

/-- The text after a backslash at the end of a line: blanks, a line end, and all
blanks and line ends after it. -/
def continuation (fuel : Nat) (cs : List Char) : Option (List Char) :=
  (newline? (skipSpaces cs)).map (skipBreaks fuel)
where
  skipBreaks : Nat → List Char → List Char
    | 0, cs => cs
    | fuel + 1, cs =>
      let cs := skipSpaces cs
      match newline? cs with
      | some cs => skipBreaks fuel cs
      | none => cs

/-- The rest of a text over several lines. A line end of either kind is a line feed. -/
def linesRest (quote : Char) (escapes : Bool) : (fuel : Nat) → Reader (List Char)
  | 0, _ => none
  | fuel + 1, cs =>
    match closing quote cs with
    | some (quotes, cs) => some (quotes, cs)
    | none =>
      match newline? cs, cs with
      | some cs, _ => (linesRest quote escapes fuel cs).map fun (rest, cs) => ('\n' :: rest, cs)
      | none, [] => none
      | none, c :: cs =>
        if escapes ∧ c = '\\' then
          match continuation fuel cs with
          | some cs => linesRest quote escapes fuel cs
          | none => do
            let (c, cs) ← escape cs
            let (rest, cs) ← linesRest quote escapes fuel cs
            some (c :: rest, cs)
        else if isPlain c then
          (linesRest quote escapes fuel cs).map fun (rest, cs) => (c :: rest, cs)
        else none

/-- The content of a text over several lines; a line end right after the quotes is not part of it. -/
def linesText (quote : Char) (escapes : Bool) (cs : List Char) : Option (String × List Char) :=
  let cs := (newline? cs).getD cs
  (linesRest quote escapes (cs.length + 1) cs).map fun (content, rest) => (String.ofList content, rest)

/-- A text on one line. -/
def lineText : Reader String
  | '"' :: cs => (basicRest (cs.length + 1) cs).map fun (content, rest) => (String.ofList content, rest)
  | '\'' :: cs => (literalRest cs).map fun (content, rest) => (String.ofList content, rest)
  | _ => none

/-- A text of any kind. -/
def text : Reader String
  | '"' :: '"' :: '"' :: cs => linesText '"' true cs
  | '\'' :: '\'' :: '\'' :: cs => linesText '\'' false cs
  | cs => lineText cs

end KeyTransparency.Toml
