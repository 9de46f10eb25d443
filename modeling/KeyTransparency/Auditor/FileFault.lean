/-!
# Faults of files and stores

Why a file or a directory cannot be used, and the texts that say so: a line for a reader
(`FileFault.message`), and the fields one by one (`FileFault.fields`). A store cannot be
opened if its files cannot be used, or if it is open already (`StoreFault`).
-/

namespace KeyTransparency.Auditor

inductive FileFault where
  | notFound
  | alreadyExists
  | notADirectory
  | isADirectory
  | nameTooLong
  | noSpace
  | noSuchDevice
  /-- There is a NUL in the path, where the path would end for the system. -/
  | embeddedNul
  /-- Any other reason, with its text. -/
  | other (text : String)
deriving DecidableEq

namespace FileFault

/-- The number of a fault that the system has found. -/
def number? : FileFault → Option Nat
  | notFound => some 2
  | alreadyExists => some 17
  | notADirectory => some 20
  | isADirectory => some 21
  | nameTooLong => some 36
  | noSpace => some 28
  | noSuchDevice => some 6
  | embeddedNul | other _ => none

/-- The name of a kind of faults. -/
def kind : FileFault → String
  | notFound => "NotFound"
  | alreadyExists => "AlreadyExists"
  | notADirectory => "NotADirectory"
  | isADirectory => "IsADirectory"
  | nameTooLong => "InvalidFilename"
  | noSpace => "StorageFull"
  | noSuchDevice => "Uncategorized"
  | embeddedNul => "InvalidInput"
  | other _ => "Other"

def text : FileFault → String
  | notFound => "No such file or directory"
  | alreadyExists => "File exists"
  | notADirectory => "Not a directory"
  | isADirectory => "Is a directory"
  | nameTooLong => "File name too long"
  | noSpace => "No space left on device"
  | noSuchDevice => "No such device or address"
  | embeddedNul => "file name contained an unexpected NUL byte"
  | other text => text

/-- The text of a fault, and its number. -/
def message (fault : FileFault) : String :=
  match fault.number? with
  | some number => fault.text ++ " (os error " ++ toString number ++ ")"
  | none => fault.text

/-- The number, the kind and the text of a fault, field by field. -/
def fields (fault : FileFault) : String :=
  let labelled := "kind: " ++ fault.kind ++ ", message: \"" ++ fault.text ++ "\" \x7d"
  match fault.number? with
  | some number => "Os \x7b code: " ++ toString number ++ ", " ++ labelled
  | none => "Error \x7b " ++ labelled

end FileFault

/-- Why a store cannot be opened. -/
inductive StoreFault where
  /-- The store is open, and a store is open once at a time. -/
  | locked
  | file (fault : FileFault)
deriving DecidableEq

/-- The text for a store that cannot be opened. -/
def StoreFault.message : StoreFault → String
  | locked => "storage error: FjallError: Locked"
  | file fault => "storage error: FjallError: Io(" ++ fault.fields ++ ")"

end KeyTransparency.Auditor
