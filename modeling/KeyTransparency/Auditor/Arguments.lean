import KeyTransparency.Snapshot

/-!
# Arguments of the auditor

The words after the name of the program say which command to run (`Invocation`), and
with which options. An option has a long name and a letter; its value is the next
word, or the rest of the same word, with or without an equals sign. Letters of
options without a value may share a word. Three options can be given before
or after the name of the command, and count where they are given last.

`Invocation.parse` refuses words that are not understood, options given twice in one
place, missing options, and values that are not of the option's type.
-/

namespace KeyTransparency.Auditor

/-- What the auditor does to its log. -/
inductive Command where
  | init (address key file : String)
  | extend (id : DirectoryId) (file : String)
  | status
  | range (id : DirectoryId) (first last : Epoch) (out : Option String)
deriving DecidableEq

/-- The options that every command has. -/
structure CommonOptions where
  config : Option String
  dataDirectory : Option String
  inMemory : Bool
deriving DecidableEq

inductive Invocation where
  | version
  | help
  | run (common : CommonOptions) (command : Command)
deriving DecidableEq

/-! ## Options -/

inductive OptionName where
  | config
  | dataDirectory
  | memory
  | address
  | key
  | file
  | id
  | start
  | last
  | out
  | help
  | version
deriving DecidableEq

namespace OptionName

def long : OptionName → String
  | config => "config"
  | dataDirectory => "data-dir"
  | memory => "memory"
  | address => "address"
  | key => "key"
  | file => "file"
  | id => "id"
  | start => "start"
  | last => "end"
  | out => "out"
  | help => "help"
  | version => "version"

def letter : OptionName → Char
  | config => 'c'
  | dataDirectory => 'd'
  | memory => 'm'
  | address => 'a'
  | key => 'k'
  | file => 'f'
  | id => 'i'
  | start => 's'
  | last => 'e'
  | out => 'o'
  | help => 'h'
  | version => 'V'

def takesValue : OptionName → Bool
  | memory | help | version => false
  | _ => true

end OptionName

/-- The values of the options given so far. -/
structure GivenOptions where
  common : CommonOptions
  address : Option String
  key : Option String
  file : Option String
  id : Option DirectoryId
  first : Option Epoch
  last : Option Epoch
  out : Option String
deriving DecidableEq

namespace GivenOptions

def empty : GivenOptions :=
  { common := ⟨none, none, false⟩, address := none, key := none, file := none, id := none
    first := none, last := none, out := none }

/-- A value that is given once. -/
def once {α : Type} (given : Option α) (value : Option α) : Option (Option α) :=
  if given.isSome || value.isNone then none else some value

/-- A path, which is not empty. -/
def path (value : String) : Option String := if value.isEmpty then none else some value

/-- Gives an option its value, which is empty for an option without a value. -/
def set (g : GivenOptions) (name : OptionName) (value : String) : Option GivenOptions :=
  match name with
  | .config => (once g.common.config (path value)).map fun v => { g with common.config := v }
  | .dataDirectory =>
    (once g.common.dataDirectory (path value)).map fun v => { g with common.dataDirectory := v }
  | .memory => if g.common.inMemory then none else some { g with common.inMemory := true }
  | .address => (once g.address (some value)).map fun v => { g with address := v }
  | .key => (once g.key (some value)).map fun v => { g with key := v }
  | .file => (once g.file (path value)).map fun v => { g with file := v }
  | .id => (once g.id (DirectoryId.parse value).toOption).map fun v => { g with id := v }
  | .start => (once g.first (Epoch.parse? value)).map fun v => { g with first := v }
  | .last => (once g.last (Epoch.parse? value)).map fun v => { g with last := v }
  | .out => (once g.out (path value)).map fun v => { g with out := v }
  | .help | .version => some g

end GivenOptions

/-! ## Words -/

/-- How a word reads that is not the value of the option before it. -/
inductive Word where
  | plain (text : String)
  /-- The word that ends all options. -/
  | endOfOptions
  | long (name : String) (value : Option String)
  | letters (letters : List Char)
deriving DecidableEq

/-- The text before the first equals sign, and the text after it. -/
def splitAtEquals : List Char → List Char × Option String
  | [] => ([], none)
  | '=' :: cs => ([], some (String.ofList cs))
  | c :: cs =>
    let (name, value) := splitAtEquals cs
    (c :: name, value)

def Word.ofString (word : String) : Word :=
  match word.toList with
  | ['-', '-'] => .endOfOptions
  | '-' :: '-' :: cs =>
    let (name, value) := splitAtEquals cs
    .long (String.ofList name) value
  | '-' :: c :: cs => .letters (c :: cs)
  | _ => .plain word

/-! ## Reading words -/

/-- Where reading stops. -/
inductive Stop (α : Type) where
  /-- An option that asks for a text. -/
  | shows (invocation : Invocation)
  /-- A word that is no option and no value, and the words after it. -/
  | word (given : GivenOptions) (meaning : α) (rest : List String)
  | finished (given : GivenOptions)

/-- What a group of letters leads to: a text that is asked for, or the options given
and the option that waits for a value. -/
inductive LettersResult where
  | shows (invocation : Invocation)
  | given (given : GivenOptions) (waiting : Option OptionName)

/-- Takes a group of letters. The rest of the group after the letter of an option with a
value is that value. -/
def takeLetters (names : List OptionName) : GivenOptions → List Char → Option LettersResult
  | g, [] => some (.given g none)
  | g, c :: cs =>
    match names.find? (·.letter == c) with
    | none => none
    | some .help => some (.shows .help)
    | some .version => some (.shows .version)
    | some name =>
      if name.takesValue then
        match cs with
        | [] => some (.given g (some name))
        | '=' :: cs => (g.set name (String.ofList cs)).map fun g => .given g none
        | cs => (g.set name (String.ofList cs)).map fun g => .given g none
      else (g.set name "").bind fun g => takeLetters names g cs

/-- Takes words up to one that is no option, or to the end. The option `waiting` takes
the next word as its value, which must not read as an option. -/
def takeWords {α : Type} (names : List OptionName) (meaning : String → Option α) :
    GivenOptions → (waiting : Option OptionName) → List String → Option (Stop α)
  | g, none, [] => some (.finished g)
  | _, some _, [] => none
  | g, some name, word :: words =>
    match Word.ofString word with
    | .plain value => (g.set name value).bind fun g => takeWords names meaning g none words
    | _ => none
  | g, none, word :: words =>
    match Word.ofString word with
    | .plain text => (meaning text).map fun a => .word g a words
    | .endOfOptions => if words.isEmpty then some (.finished g) else none
    | .long long value =>
      match names.find? (·.long == long), value with
      | none, _ => none
      | some .help, none => some (.shows .help)
      | some .version, none => some (.shows .version)
      | some name, value =>
        match name.takesValue, value with
        | true, some value => (g.set name value).bind fun g => takeWords names meaning g none words
        | true, none => takeWords names meaning g (some name) words
        | false, some _ => none
        | false, none => (g.set name "").bind fun g => takeWords names meaning g none words
    | .letters letters =>
      match takeLetters names g letters with
      | none => none
      | some (.shows invocation) => some (.shows invocation)
      | some (.given g waiting) => takeWords names meaning g waiting words

/-! ## Commands -/

inductive CommandName where
  | init
  | extend
  | status
  | range
  | help
deriving DecidableEq

namespace CommandName

def all : List (String × CommandName) :=
  [("init", init), ("extend", extend), ("status", status), ("range", range), ("help", help)]

def ofString? (text : String) : Option CommandName := (all.find? (·.1 == text)).map (·.2)

/-- The options that every command has. -/
def commonOptions : List OptionName := [.config, .dataDirectory, .memory, .help]

/-- The options of a command. -/
def options : CommandName → List OptionName
  | init => [.address, .key, .file] ++ commonOptions
  | extend => [.id, .file] ++ commonOptions
  | range => [.id, .start, .last, .out] ++ commonOptions
  | status | help => commonOptions

/-- The command with the values given, if none is missing. -/
def command? (name : CommandName) (g : GivenOptions) : Option Command :=
  match name with
  | init => do return .init (← g.address) (← g.key) (← g.file)
  | extend => do return .extend (← g.id) (← g.file)
  | status => some .status
  | range => do return .range (← g.id) (← g.first) (← g.last) g.out
  | help => none

end CommandName

/-- The options given before the name of a command, and after it. -/
def CommonOptions.merge (before after : CommonOptions) : CommonOptions :=
  ⟨after.config <|> before.config, after.dataDirectory <|> before.dataDirectory,
    before.inMemory || after.inMemory⟩

namespace Invocation

/-- The words after the name of a command. -/
def parseCommand (before : CommonOptions) (name : CommandName) (words : List String) :
    Option Invocation := do
  match ← takeWords name.options (fun _ => (none : Option Unit)) GivenOptions.empty none words with
  | .shows invocation => return invocation
  | .word _ _ _ => none
  | .finished g => return .run (before.merge g.common) (← name.command? g)

/-- All words after the name of the program. -/
def parse (words : List String) : Option Invocation := do
  match ← takeWords (.version :: CommandName.commonOptions) CommandName.ofString?
      GivenOptions.empty none words with
  | .shows invocation => return invocation
  | .finished _ => none
  | .word _ .help [] => return .help
  | .word _ .help [word] => (CommandName.ofString? word).map fun _ => .help
  | .word _ .help _ => none
  | .word g name rest => parseCommand g.common name rest

end Invocation

end KeyTransparency.Auditor
