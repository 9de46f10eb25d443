import KeyTransparency.Toml.Number
import KeyTransparency.Toml.Table
import KeyTransparency.Toml.Text

/-!
# TOML documents

A document is a sequence of lines that are empty, set a value under a key, or are the
header of the table that the following keys belong to (`Toml.parse`). Only a document
without any error has a meaning.
-/

namespace KeyTransparency.Toml

/-- Arrays and inline tables nest less than this deep, and keys have fewer parts. -/
def depthLimit : Nat := 80

/-! ## Keys -/

def isBareKeyChar (c : Char) : Bool := c.isAlphanum || c == '_' || c == '-'

/-- One part of a key, bare or quoted. -/
def simpleKey : Reader String := fun cs =>
  match cs with
  | '"' :: _ | '\'' :: _ => lineText cs
  | _ =>
    let name := cs.takeWhile isBareKeyChar
    if name.isEmpty then none else some (String.ofList name, cs.dropWhile isBareKeyChar)

/-- The parts of a key, with points between them and blanks around each. -/
def keyParts : (fuel : Nat) → Reader (List String)
  | 0, _ => none
  | fuel + 1, cs => do
    let (part, cs) ← simpleKey (skipSpaces cs)
    match skipSpaces cs with
    | '.' :: cs =>
      let (parts, cs) ← keyParts fuel cs
      some (part :: parts, cs)
    | cs => some ([part], cs)

/-- A key: the parts before the last one, and the last one. -/
def key : Reader (List String × String) := fun cs => do
  let (parts, cs) ← keyParts (depthLimit - 1) cs
  let last ← parts.getLast?
  some ((parts.dropLast, last), cs)

/-! ## Values -/

/-- The values of an array from the current one on, up to the closing bracket. -/
def arrayItems (value : Reader Node) : (fuel : Nat) → Reader (List Node)
  | 0, _ => none
  | fuel + 1, cs =>
    match skipLines cs.length cs with
    | ']' :: cs => some ([], cs)
    | cs => do
      let (item, cs) ← value cs
      match skipLines cs.length cs with
      | ']' :: cs => some ([item], cs)
      | ',' :: cs =>
        let (items, cs) ← arrayItems value fuel cs
        some (item :: items, cs)
      | _ => none

/-- A key, the equals sign and a value. -/
def keyValue (value : Reader Node) : Reader (List String × String × Node) := fun cs => do
  let ((parts, last), cs) ← key cs
  let cs ← char '=' cs
  let (node, cs) ← value (skipSpaces cs)
  some ((parts, last, node), cs)

/-- The pairs of an inline table from the current one on, up to the closing brace,
added to those before. -/
def inlineItems (value : Reader Node) : (fuel : Nat) → Entries → Reader Entries
  | 0, _, _ => none
  | fuel + 1, es, cs => do
    let ((parts, last, node), cs) ← keyValue value cs
    let es ← es.put parts last node
    match skipSpaces cs with
    | '\x7d' :: cs => some (es, cs)
    | ',' :: cs => inlineItems value fuel es cs
    | _ => none

def inlineTable (value : Reader Node) (cs : List Char) : Option (Entries × List Char) :=
  match skipSpaces cs with
  | '\x7d' :: cs => some ([], cs)
  | cs => inlineItems value (cs.length + 1) [] cs

/-- A number or a moment. -/
def numberOrMoment : Reader Node := fun cs =>
  match moment cs with
  | some ((), rest) => some (.moment, rest)
  | none => ((float cs).orElse fun _ => integer cs).map fun ((), rest) => (.number, rest)

/-- A value whose arrays and inline tables nest at most `depth` deep. -/
def value : (depth : Nat) → Reader Node
  | depth, cs =>
    match cs with
    | '"' :: _ | '\'' :: _ => (text cs).map fun (content, rest) => (.text content, rest)
    | 't' :: _ => (word "true" cs).map fun rest => (.boolean true, rest)
    | 'f' :: _ => (word "false" cs).map fun rest => (.boolean false, rest)
    | 'i' :: _ | 'n' :: _ => (specialFloat cs).map fun ((), rest) => (.number, rest)
    | '[' :: cs =>
      match depth with
      | 0 => none
      | depth + 1 =>
        (arrayItems (value depth) (cs.length + 1) cs).map fun (items, rest) => (.array items, rest)
    | '\x7b' :: cs =>
      match depth with
      | 0 => none
      | depth + 1 =>
        (inlineTable (value depth) cs).map fun (es, rest) => (.table .inline es, rest)
    | _ => numberOrMoment cs

/-! ## Lines -/

/-- What is known after some lines: the document so far, and the header that the next keys belong to. -/
structure Progress where
  root : Entries
  current : List String

/-- Takes a header, after its first bracket. -/
def header (doc : Progress) (cs : List Char) : Option (Progress × List Char) :=
  match cs with
  | '[' :: cs => do
    let ((path, last), cs) ← key cs
    let cs ← char ']' cs
    let cs ← char ']' cs
    let rest ← endOfLine cs
    let root ← doc.root.openElement path last
    some (⟨root, path ++ [last]⟩, rest)
  | cs => do
    let ((path, last), cs) ← key cs
    let cs ← char ']' cs
    let rest ← endOfLine cs
    let root ← doc.root.openTable path last
    some (⟨root, path ++ [last]⟩, rest)

/-- Takes a line that sets a value. -/
def setting (doc : Progress) (cs : List Char) : Option (Progress × List Char) := do
  let ((parts, last, node), cs) ← keyValue (value (depthLimit - 1)) cs
  let rest ← endOfLine cs
  let root ← doc.root.within doc.current fun es => es.put parts last node
  some ({ doc with root }, rest)

/-- Takes lines up to the end of the text. -/
def lines : (fuel : Nat) → Progress → List Char → Option Progress
  | 0, _, _ => none
  | fuel + 1, doc, cs =>
    match skipSpaces cs with
    | [] => some doc
    | '[' :: cs => do
      let (doc, cs) ← header doc cs
      lines fuel doc cs
    | '#' :: cs => do
      let cs ← endOfLine ('#' :: cs)
      lines fuel doc cs
    | c :: cs =>
      match newline? (c :: cs) with
      | some cs => lines fuel doc cs
      | none => do
        let (doc, cs) ← setting doc (c :: cs)
        lines fuel doc cs

/-- The table that a document stands for, if it has no error. A byte order mark in front is skipped. -/
def parse (document : String) : Option Entries :=
  let cs := match document.toList with
    | '\uFEFF' :: cs => cs
    | cs => cs
  (lines (cs.length + 1) ⟨[], []⟩ cs).map (·.root)

end KeyTransparency.Toml
