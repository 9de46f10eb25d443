import KeyTransparency.Auditor.Program

/-!
# The auditor on a machine

Runs the auditor program on the files of the machine. The tables of a store are one file
in the directory of the store. A lock on another file there keeps other programs from the
store as long as this one runs.
-/

namespace KeyTransparency.Auditor

/-- The fault that an error of the system stands for. -/
def faultOf : IO.Error → FileFault
  | .noFileOrDirectory _ _ _ => .notFound
  | .alreadyExists _ _ _ => .alreadyExists
  | .inappropriateType _ 20 _ => .notADirectory
  | .inappropriateType _ 21 _ => .isADirectory
  | .invalidArgument _ 36 _ => .nameTooLong
  | .resourceExhausted _ 28 _ => .noSpace
  | .noSuchThing _ 6 _ => .noSuchDevice
  | e => .other (toString e)

/-- The result of an action on a path, or the fault it ends with. -/
def attempt {α : Type} (path : String) (action : IO α) : IO (Except FileFault α) := do
  match checkPath path with
  | .error fault => return .error fault
  | .ok () =>
    match ← action.toBaseIO with
    | .ok a => return .ok a
    | .error e => return .error (faultOf e)

def readBytes (path : String) : IO (Except FileFault Bytes) :=
  attempt path do return (← (← IO.FS.Handle.mk path .read).readBinToEnd).data.toList

def writeBytes (path : String) (content : Bytes) : IO (Except FileFault Unit) :=
  attempt path (IO.FS.writeBinFile path ⟨content.toArray⟩)

/-- The file with the tables of a store. -/
def tablesFile (path : String) : String := joinPath path "tables"

/-- The locks that the program holds. They are given up with the program. -/
abbrev Locks := IO.Ref (List IO.FS.Handle)

/-- Takes the lock of the store in a directory. -/
def lockStore (locks : Locks) (path : String) : IO (Except StoreFault Unit) := do
  let file := joinPath path "lock"
  match ← attempt file (IO.FS.Handle.mk file .append) with
  | .error fault => return .error (.file fault)
  | .ok handle =>
    if ← handle.tryLock then
      locks.modify (handle :: ·)
      return .ok ()
    else return .error .locked

/-- Reads the tables in a directory. -/
def readTables (path : String) : IO (Except StoreFault Tables) := do
  match ← readBytes (tablesFile path) with
  | .error fault => return .error (.file fault)
  | .ok bytes =>
    match Tables.codec.read bytes with
    | .ok tables => return .ok tables
    | .error cause => return .error (.file (.other cause.message))

/-- Opens the store in a directory. Its tables are read again once they cannot change. -/
def openTables (locks : Locks) (path : String) : IO (Except StoreFault Tables) := do
  match ← readTables path with
  | .error fault => return .error fault
  | .ok _ =>
    match ← lockStore locks path with
    | .error fault => return .error fault
    | .ok () => readTables path

/-- Writes tables in a directory. -/
def writeTables (path : String) (tables : Tables) : IO Unit := do
  match ← writeBytes (tablesFile path) (Tables.codec.encode tables) with
  | .ok () => pure ()
  | .error fault => throw (IO.userError fault.message)

/-- Makes a store without rows in a directory that has none. -/
def createTables (locks : Locks) (path : String) : IO (Except StoreFault Unit) := do
  match ← lockStore locks path with
  | .error fault => return .error fault
  | .ok () =>
    let file := tablesFile path
    match ← attempt file (IO.FS.Handle.mk file .writeNew) with
    | .error fault => return .error (.file fault)
    | .ok _ =>
      writeTables path Tables.empty
      return .ok ()

/-- The machine that the program runs on. One can go on from a directory, and from nothing else. -/
def machine (locks : Locks) : Host IO where
  readFile := readBytes
  writeFile := writeBytes
  createDirectory path := attempt path (IO.FS.createDir path)
  isDirectory path := return (← attempt path (IO.FS.Handle.mk (joinPath path ".") .read)).isOk
  readStore := openTables locks
  createStore := createTables locks
  saveStore := writeTables
  home := IO.getEnv "HOME"

/-- Prints how a run ends. -/
def printOutcome : Outcome → IO Unit
  | .misused => IO.eprint helpText
  | .reported report => do
    IO.print report.printed
    match report.failure with
    | some failure => IO.eprint failure.text
    | none => pure ()

end KeyTransparency.Auditor

open KeyTransparency.Auditor in
def main (words : List String) : IO UInt32 := do
  let outcome ← run (machine (← IO.mkRef [])) words
  printOutcome outcome
  return UInt32.ofNat outcome.exitCode
