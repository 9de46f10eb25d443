/-!
# Tables of a TOML document

A document is a table of values by key (`Toml.Entries`). What may still be added
to a table depends on how it came about (`TableStyle`): a header may define a table
once, and a dotted key only adds to tables that dotted keys made.

* `Entries.put` adds a value under a dotted key.
* `Entries.openTable` and `Entries.openElement` define the table of a header, or
  one more element of an array of tables.
* `Entries.within` changes the table of a header.

Each of them fails where TOML forbids a second definition.
-/

namespace KeyTransparency.Toml

/-- How a table came about. -/
inductive TableStyle where
  /-- It has a header of its own. -/
  | header
  /-- It is a part of the header of another table. -/
  | implied
  /-- It is a part of a dotted key. -/
  | dotted
  /-- It is written between braces, and complete. -/
  | inline
deriving DecidableEq

inductive Node where
  | text (content : String)
  | boolean (content : Bool)
  /-- An integer or a float. -/
  | number
  /-- A date, a time, or both. -/
  | moment
  | array (items : List Node)
  | table (style : TableStyle) (entries : List (String × Node))
  /-- An array of tables that headers define one by one. -/
  | tables (elements : List (List (String × Node)))

/-- The content of a table. -/
abbrev Entries := List (String × Node)

namespace Entries

def find? (es : Entries) (key : String) : Option Node := (List.find? (fun e => e.1 == key) es).map (·.2)

/-- The table with another value under a key that it has. -/
def replace (es : Entries) (key : String) (node : Node) : Entries :=
  es.map fun e => if e.1 == key then (key, node) else e

/-- Changes the last element of an array of tables. -/
def changeLast (f : Entries → Option Entries) (elements : List Entries) : Option (List Entries) :=
  match elements.getLast? with
  | none => none
  | some es => (f es).map fun es => elements.dropLast ++ [es]

/-- Adds a value under a dotted key: the parts of the key before the last one, and the last one. -/
def put : (parts : List String) → (key : String) → Node → Entries → Option Entries
  | [], key, node, es => if (es.find? key).isSome then none else some (es ++ [(key, node)])
  | part :: parts, key, node, es =>
    match es.find? part with
    | none => (put parts key node []).map fun t => es ++ [(part, .table .dotted t)]
    | some (.table style t) =>
      if style = .dotted ∨ (style = .implied ∧ parts ≠ []) then
        (put parts key node t).map fun t => es.replace part (.table style t)
      else none
    | some (.tables elements) =>
      if parts = [] then none
      else (changeLast (put parts key node) elements).map fun ts => es.replace part (.tables ts)
    | some _ => none

/-- Changes the table of a header. Tables on the way that do not exist are implied. -/
def within : (path : List String) → (Entries → Option Entries) → Entries → Option Entries
  | [], f, es => f es
  | part :: path, f, es =>
    match es.find? part with
    | none => (within path f []).map fun t => es ++ [(part, .table .implied t)]
    | some (.table style t) =>
      if style = .inline then none
      else (within path f t).map fun t => es.replace part (.table style t)
    | some (.tables elements) =>
      (changeLast (within path f) elements).map fun ts => es.replace part (.tables ts)
    | some _ => none

/-- Defines the table of a header, which may only have been implied before. -/
def openTable (path : List String) (key : String) : Entries → Option Entries :=
  within path fun es =>
    match es.find? key with
    | none => some (es ++ [(key, .table .header [])])
    | some (.table .implied t) => some (es.replace key (.table .header t))
    | some _ => none

/-- Defines one more element of an array of tables. -/
def openElement (path : List String) (key : String) : Entries → Option Entries :=
  within path fun es =>
    match es.find? key with
    | none => some (es ++ [(key, .tables [[]])])
    | some (.tables elements) => some (es.replace key (.tables (elements ++ [[]])))
    | some _ => none

end Entries

end KeyTransparency.Toml
