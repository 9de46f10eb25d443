import KeyTransparency.Text.Utf8
import KeyTransparency.Toml.Document

/-!
# Settings of the auditor

Settings are read from a TOML document with the tables `auditor` (`data_dir`, `memory`) and
`log` (`level`). What is not set has a default, and other keys are ignored; a value of
the wrong type is an error. A table may also be written as an array of its values in the
order of the keys above.
-/

namespace KeyTransparency.Auditor

structure Settings where
  /-- The directory of the store; by default one in the home directory. -/
  dataDirectory : Option String
  /-- Whether the histories are held in memory only. -/
  inMemory : Bool
  /-- What the program writes to its journal. -/
  logLevel : String
deriving DecidableEq

namespace Settings

open Toml

def default : Settings := ⟨none, false, "info"⟩

/-- The values of a section, in the order of `keys`. -/
def section? (keys : List String) : Node → Option (List (Option Node))
  | .table _ entries => some (keys.map fun key => Entries.find? entries key)
  | .moment => some (keys.map fun _ => none)
  | .array items => some ((List.range keys.length).map fun i => items[i]?)
  | .tables elements =>
    some ((List.range keys.length).map fun i => (elements[i]?).map fun t => .table .header t)
  | _ => none

/-- The text of a value, or `default` if there is no value. -/
def textOr {α : Type} (default : α) (wrap : String → α) : Option Node → Option α
  | none => some default
  | some (.text content) => some (wrap content)
  | some _ => none

/-- The truth value of a value, or `default` if there is no value. -/
def booleanOr (default : Bool) : Option Node → Option Bool
  | none => some default
  | some (.boolean content) => some content
  | some _ => none

/-- Reads the section `auditor`. -/
def withAuditor (s : Settings) (node : Node) : Option Settings := do
  match ← section? ["data_dir", "memory"] node with
  | [directory, memory] =>
    return { s with
      dataDirectory := ← textOr s.dataDirectory some directory
      inMemory := ← booleanOr s.inMemory memory }
  | _ => none

/-- Reads the section `log`. -/
def withLog (s : Settings) (node : Node) : Option Settings := do
  match ← section? ["level"] node with
  | [level] => return { s with logLevel := ← textOr s.logLevel id level }
  | _ => none

/-- The settings of a document. -/
def ofEntries (entries : Entries) : Option Settings := do
  let s ← match entries.find? "auditor" with
    | some node => default.withAuditor node
    | none => some default
  match entries.find? "log" with
  | some node => s.withLog node
  | none => some s

/-- The settings in a file, which has to be a TOML document in UTF-8. -/
def ofBytes (bytes : Bytes) : Option Settings := do
  ofEntries (← Toml.parse (← Text.ofUtf8? bytes))

end Settings

end KeyTransparency.Auditor
