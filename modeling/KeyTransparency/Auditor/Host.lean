import KeyTransparency.Audit.Store
import KeyTransparency.Auditor.Path

/-!
# What an auditor runs on

The auditor program reads and writes files, and keeps its histories in a store at a
path. `Host` lists what it asks for, in any monad, so that a program can be run on the
files of a machine and on files that are values (`Workspace`) alike. What takes more
than one step is built on it: a directory is made after those above it
(`createDirectories`), a store with its directory (`openStore`).
-/

namespace KeyTransparency.Auditor

/-- The files, directories and stores of a machine, by path. -/
structure Host (m : Type → Type) where
  readFile : (path : String) → m (Except FileFault Bytes)
  /-- Replaces the content of a file, or makes the file. -/
  writeFile : (path : String) → Bytes → m (Except FileFault Unit)
  /-- Makes a directory in one that is there. -/
  createDirectory : (path : String) → m (Except FileFault Unit)
  isDirectory : (path : String) → m Bool
  /-- Opens the store in a directory. It is not found if there is none in it, and locked if it is
  open already. -/
  readStore : (path : String) → m (Except StoreFault Tables)
  /-- Makes a store without rows in a directory that has none, and opens it. -/
  createStore : (path : String) → m (Except StoreFault Unit)
  /-- Puts tables in place of those of a store. -/
  saveStore : (path : String) → Tables → m Unit
  /-- The home directory of the user, if it is known. -/
  home : m (Option String)

variable {m : Type → Type} [Monad m]

/-- The result of making a directory. One that is there is as good as a new one. -/
def orExisting (host : Host m) (path : String) : Except FileFault Unit → m (Except FileFault Unit)
  | .ok () => return .ok ()
  | .error fault => do return if ← host.isDirectory path then .ok () else .error fault

/-- Makes the first directory of a list, and before it the next ones if one of them is missing. -/
def createAfter (host : Host m) : List String → m (Except FileFault Unit)
  | [] => return .ok ()
  | path :: above => do
    match ← host.createDirectory path with
    | .error .notFound =>
      match ← createAfter host above with
      | .error fault => return .error fault
      | .ok () => orExisting host path (← host.createDirectory path)
    | result => orExisting host path result

/-- Makes a directory and all directories above it, as far as they are missing. -/
def createDirectories (host : Host m) (path : String) : m (Except FileFault Unit) :=
  if path.isEmpty then return .ok ()
  else createAfter host (path :: (Path.ofString path).above.map Path.text)

/-- The directory of the store at a path. It may be missing, so that a name "." could not be
passed through on the way to it. -/
def storeDirectory (path : String) : String := (Path.ofString path).plain.text

/-- Opens the store at a path. A store that is missing is made, with its directory. The way to
the directory may itself have been missing, and lead to a store once it is made. -/
def openStore (host : Host m) (path : String) : m (Except StoreFault Tables) := do
  match ← host.readStore (storeDirectory path) with
  | .error (.file .notFound) =>
    match ← createDirectories host (storeDirectory path) with
    | .error fault => return .error (.file fault)
    | .ok () =>
      match ← host.createStore (storeDirectory path) with
      | .error fault => return .error fault
      | .ok () => return .ok Tables.empty
  | result => return result

end KeyTransparency.Auditor
