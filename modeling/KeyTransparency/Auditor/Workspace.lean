import KeyTransparency.Auditor.Host

/-!
# Files as a value

A workspace holds files, directories and stores by their locations, seen from a
working directory. `Workspace.host` runs the auditor program on it, beside others
that hold some of its stores open.

A location is the list of names on the way from the top of all directories. Some
locations are standing (`Location.standing?`): there is something at them on every
machine, whatever a workspace holds. The working directory is one of them, and so are
the devices.

To look something up is to walk along a path (`Workspace.walk`): each name has to be in
a directory, and may lead to nothing only at the end. What is to be written or made needs
a name of its own at the end of its path (`Workspace.lastStep`), which "." and ".." are not.
-/

namespace KeyTransparency.Auditor

/-- A file that keeps nothing of what is written to it. -/
inductive Device where
  /-- There is nothing to be read from it. -/
  | null
  /-- There is no end to what is read from it. -/
  | endless
  /-- There is no room in it, and no end to what is read from it. -/
  | full
  /-- The terminal, which a workspace does not have. -/
  | terminal
deriving DecidableEq

namespace Device

/-- What is read from a device. -/
def content : Device → Except FileFault Bytes
  | null => .ok []
  | endless | full => .error (.other "out of memory")
  | terminal => .error .noSuchDevice

/-- Whether a device takes what is written to it. -/
def accept (content : Bytes) : Device → Except FileFault Unit
  | null | endless => .ok ()
  | full => if content.isEmpty then .ok () else .error .noSpace
  | terminal => .error .noSuchDevice

end Device

inductive Entry where
  | file (content : Bytes)
  /-- A directory, and the tables of the store that is kept in it, if any. -/
  | directory (store : Option Tables)
  | device (device : Device)
deriving DecidableEq

abbrev Location := List String

structure Workspace where
  entries : Std.ExtTreeMap Location Entry
deriving DecidableEq

namespace Location

def workingDirectory : Location := ["tmp", ".workspace"]

/-- The location where a path starts. -/
def start (p : Path) : Location := if p.isAbsolute then [] else workingDirectory

/-- The location that one name leads to from a directory. Nothing is above the top. -/
def follow (location : Location) (name : String) : Location :=
  if name == "." then location
  else if name == ".." then location.dropLast
  else location ++ [name]

/-- The directories that every machine has at its top. -/
def topNames : List String :=
  ["bin", "boot", "dev", "etc", "home", "lib", "media", "mnt", "opt", "proc", "root", "run", "sbin",
    "srv", "sys", "tmp", "usr", "var"]

/-- What every machine has among its devices. The input of a program is empty. -/
def deviceEntry? : String → Option Entry
  | "null" | "stdin" => some (.device .null)
  | "zero" | "random" | "urandom" => some (.device .endless)
  | "full" => some (.device .full)
  | "tty" => some (.device .terminal)
  | "fd" | "pts" | "shm" => some (.directory none)
  | _ => none

/-- What is at a standing location. -/
def standing? (location : Location) : Option Entry :=
  if location = workingDirectory then some (.directory none)
  else
    match location with
    | [] => some (.directory none)
    | [name] => if name ∈ topNames then some (.directory none) else none
    | ["dev", name] => deviceEntry? name
    | _ => none

/-- Whether nothing can be made at a location: it is among the processes of the machine. -/
def isSealed (location : Location) : Bool := location.head? == some "proc"

end Location

namespace Workspace

/-- A working directory without content. -/
def empty : Workspace := ⟨∅⟩

/-- What is at a location. -/
def at? (w : Workspace) (location : Location) : Option Entry :=
  w.entries[location]? <|> location.standing?

def put (w : Workspace) (location : Location) (entry : Entry) : Workspace :=
  ⟨w.entries.insert location entry⟩

/-! ## Ways -/

/-- Whether one can go on from a location. -/
def checkDirectory (w : Workspace) (location : Location) : Except FileFault Unit :=
  match w.at? location with
  | none => .error .notFound
  | some (.directory _) => .ok ()
  | some _ => .error .notADirectory

/-- The location of a name in a directory. There need not be anything at it. -/
def step (w : Workspace) (location : Location) (name : String) : Except FileFault Location := do
  w.checkDirectory location
  if name.utf8ByteSize > 255 then throw .nameTooLong
  return location.follow name

/-- The location that names lead to, one after the other. -/
def walk (w : Workspace) : Location → List String → Except FileFault Location
  | location, [] => .ok location
  | location, name :: names => do w.walk (← w.step location name) names

/-- The location of a path. There need not be anything at it. -/
def locate (w : Workspace) (path : String) : Except FileFault Location := do
  checkPath path
  let p := Path.ofString path
  let location ← w.walk (Location.start p) p.names
  if p.endsInSeparator then w.checkDirectory location
  return location

/-- The directory in which the last name of a path is, and that name. There is none if the path
leads to a directory whatever is in a workspace. -/
def lastStep (w : Workspace) (p : Path) : Except FileFault (Option (Location × String)) := do
  match p.names.getLast? with
  | none => return none
  | some name =>
    let directory ← w.walk (Location.start p) p.names.dropLast
    w.checkDirectory directory
    return if name == "." || name == ".." then none else some (directory, name)

/-- The location of a file that is to be written. -/
def locateFile (w : Workspace) (path : String) : Except FileFault Location := do
  checkPath path
  let p := Path.ofString path
  match ← w.lastStep p with
  | none => throw .isADirectory
  | some (directory, name) =>
    if p.endsInSeparator then throw .isADirectory
    let location ← w.step directory name
    match w.at? location with
    | some (.directory _) => throw .isADirectory
    | some _ => return location
    | none =>
      if location.isSealed then throw .notFound
      return location

/-- The location of a directory that is to be made. -/
def locateNew (w : Workspace) (path : String) : Except FileFault Location := do
  checkPath path
  match ← w.lastStep (Path.ofString path) with
  | none => throw .alreadyExists
  | some (directory, name) =>
    let location ← w.step directory name
    if (w.at? location).isSome then throw .alreadyExists
    if location.isSealed then throw .notFound
    return location

/-! ## Files and directories -/

/-- What is at a path. -/
def entryOf (w : Workspace) (path : String) : Except FileFault Entry := do
  match w.at? (← w.locate path) with
  | some entry => return entry
  | none => throw .notFound

/-- Whether there is anything at a path. -/
def contains (w : Workspace) (path : String) : Bool := (w.entryOf path).isOk

def isDirectory (w : Workspace) (path : String) : Bool :=
  match w.entryOf path with
  | .ok (.directory _) => true
  | _ => false

def contentOf (w : Workspace) (path : String) : Except FileFault Bytes := do
  match ← w.entryOf path with
  | .file content => return content
  | .directory _ => throw .isADirectory
  | .device device => device.content

def setContent (w : Workspace) (path : String) (content : Bytes) : Except FileFault Unit × Workspace :=
  match w.locateFile path with
  | .error fault => (.error fault, w)
  | .ok location =>
    match w.at? location with
    | some (.device device) => (device.accept content, w)
    | _ => (.ok (), w.put location (.file content))

def createDirectory (w : Workspace) (path : String) : Except FileFault Unit × Workspace :=
  match w.locateNew path with
  | .error fault => (.error fault, w)
  | .ok location => (.ok (), w.put location (.directory none))

/-! ## Stores -/

/-- The tables in a directory. -/
def storeOf (w : Workspace) (path : String) : Except FileFault Tables := do
  match ← w.entryOf path with
  | .directory (some tables) => return tables
  | .directory none => throw .notFound
  | _ => throw .notADirectory

/-- Whether a path leads to the directory of one of the stores at some paths, by whatever names. -/
def isAmong (w : Workspace) (stores : List String) (path : String) : Bool :=
  stores.any fun store =>
    match w.locate (storeDirectory store), w.locate path with
    | .ok a, .ok b => a == b
    | _, _ => false

/-- Opens the store in a directory, while others hold the stores at some paths. -/
def openTables (w : Workspace) (held : List String) (path : String) : Except StoreFault Tables :=
  match w.storeOf path with
  | .error fault => .error (.file fault)
  | .ok tables => if w.isAmong held path then .error .locked else .ok tables

/-- Puts tables in a directory, in place of those in it. -/
def saveStore (w : Workspace) (path : String) (tables : Tables) : Workspace :=
  match w.locate path with
  | .error _ => w
  | .ok location => w.put location (.directory (some tables))

/-- Makes a store without rows in a directory that has none, while others hold the stores at some
paths. -/
def createStore (w : Workspace) (held : List String) (path : String) :
    Except StoreFault Unit × Workspace :=
  match w.entryOf path with
  | .ok (.directory none) => (.ok (), w.saveStore path Tables.empty)
  | .ok (.directory (some _)) =>
    (.error (if w.isAmong held path then .locked else .file .alreadyExists), w)
  | .ok _ => (.error (.file .notADirectory), w)
  | .error fault => (.error (.file fault), w)

/-- A workspace as the machine of a program, while others hold the stores at some paths. The home
directory is the working directory. -/
def host (held : List String) : Host (StateM Workspace) where
  readFile path := return (← get).contentOf path
  writeFile path content := modifyGet fun w => w.setContent path content
  createDirectory path := modifyGet fun w => w.createDirectory path
  isDirectory path := return (← get).isDirectory path
  readStore path := return (← get).openTables held path
  createStore path := modifyGet fun w => w.createStore held path
  saveStore path tables := modify fun w => w.saveStore path tables
  home := return none

end Workspace

end KeyTransparency.Auditor
