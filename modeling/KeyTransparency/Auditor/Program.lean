import KeyTransparency.Audit.Log
import KeyTransparency.Auditor.Arguments
import KeyTransparency.Auditor.Host
import KeyTransparency.Auditor.Report
import KeyTransparency.Auditor.Settings

/-!
# The auditor program

Every run reads its settings, opens the log of the data directory, carries out one
command (`Auditor.perform`), and keeps what the log has taken. With histories in
memory only, the log is empty at the start and forgotten at the end.
-/

namespace KeyTransparency.Auditor

variable {m : Type → Type} [Monad m]

/-- The line that names the program and its version. -/
def versionText : String := "vouchd 0.1.0\n"

def helpText : String :=
  "Key-transparency auditor\n\n" ++
  "Usage: vouchd [OPTIONS] <COMMAND>\n\n" ++
  "Commands:\n" ++
  "  init    Start auditing a directory from its epoch-0 snapshot\n" ++
  "  extend  Extend a directory's history with newer snapshots\n" ++
  "  status  List audited directories\n" ++
  "  range   Print (and optionally export) stored snapshots for an epoch range\n" ++
  "  help    Print this message or the help of the given subcommand(s)\n\n" ++
  "Options:\n" ++
  "  -c, --config <CONFIG>      Path to TOML config file\n" ++
  "  -d, --data-dir <DATA_DIR>  Override data directory\n" ++
  "  -m, --memory               Run fully in-memory (no disk persistence)\n" ++
  "  -h, --help                 Print help\n" ++
  "  -V, --version              Print version\n"

/-- The public key in a text: 32 bytes in hexadecimal, blanks around them aside. -/
def parseKey (text : String) : Except Failure PublicKey :=
  match Hex.decode (Text.utf8 (Text.trimBlank text)) with
  | .error cause => .error ⟨"public key is not valid hex", [cause.message]⟩
  | .ok bytes =>
    match Block32.ofBytes? bytes with
    | some block => .ok ⟨block⟩
    | none => .error ⟨"public key must be 32 bytes, got " ++ toString bytes.length, []⟩

/-- The snapshots in a file. -/
def readSnapshots (host : Host m) (file : String) : m (Except Failure (List Snapshot)) := do
  match ← host.readFile file with
  | .error fault => return .error ⟨"failed to read " ++ file, [fault.message]⟩
  | .ok bytes =>
    match (Codec.list Snapshot.codec).read bytes with
    | .error cause => return .error ⟨file ++ " is not a postcard snapshot list", [cause.message]⟩
    | .ok snapshots => return .ok snapshots

/-! ## Commands -/

/-- The failure of a command that the log refuses. -/
def rejected (command : String) (e : AuditError) : Failure :=
  ⟨command ++ " rejected (" ++ e.status.message ++ "): " ++ e.message, []⟩

def startedText (id : DirectoryId) (address : String) (snapshots : List Snapshot) : String :=
  "Directory: " ++ id.hex ++ "\n" ++
  "  address: " ++ address ++ "\n" ++
  "  latest epoch: " ++ toString (snapshots.length - 1) ++ "\n"

def init (host : Host m) (log : AuditLog) (address key file : String) : m (Report × AuditLog) := do
  match parseKey key with
  | .error failure => return (.failed failure, log)
  | .ok key =>
    match ← readSnapshots host file with
    | .error failure => return (.failed failure, log)
    | .ok snapshots =>
      match log.start address key snapshots with
      | (.error e, log) => return (.failed (rejected "init" e), log)
      | (.ok id, log) => return (.success (startedText id address snapshots), log)

def extend (host : Host m) (log : AuditLog) (id : DirectoryId) (file : String) :
    m (Report × AuditLog) := do
  match ← readSnapshots host file with
  | .error failure => return (.failed failure, log)
  | .ok snapshots =>
    match log.extend id snapshots with
    | (.error e, log) => return (.failed (rejected "extend" e), log)
    | (.ok admitted, log) =>
      match log.latest id with
      | .error e => return (.failed ⟨e.message, []⟩, log)
      | .ok latest =>
        return (.success ("Admitted " ++ toString admitted ++ " snapshots; latest epoch " ++
          toString latest.epoch ++ "\n"), log)

/-- The line about one directory. -/
def summaryLine (summary : DirectorySummary) : String :=
  "  " ++ summary.id.hex ++ " address=" ++ summary.address ++
    " latest_epoch=" ++ toString summary.latestEpoch ++ "\n"

def statusText (log : AuditLog) : String :=
  "Audited directories: " ++ toString log.directories.length ++ "\n" ++
    String.join (log.directories.map summaryLine)

/-- The line about one snapshot. -/
def snapshotLine (s : Snapshot) : String :=
  "  epoch=" ++ toString s.epoch ++ " root=" ++ s.root.hex ++ " digest=" ++ s.digest.hex ++ "\n"

def range (host : Host m) (log : AuditLog) (request : RangeRequest) (out : Option String) :
    m Report := do
  let response := log.answer request
  match response.asHistory with
  | .error _ => return .failed ⟨"range query failed: " ++ response.status.message, []⟩
  | .ok snapshots =>
    let lines := String.join (snapshots.map snapshotLine)
    match out with
    | none => return .success lines
    | some path =>
      match ← host.writeFile path response.toBytes with
      | .error fault => return ⟨lines, some ⟨"failed to write " ++ path, [fault.message]⟩⟩
      | .ok () => return .success (lines ++ "Wrote response to " ++ path ++ "\n")

/-- Carries out a command on a log. -/
def perform (host : Host m) (log : AuditLog) : Command → m (Report × AuditLog)
  | .init address key file => init host log address key file
  | .extend id file => extend host log id file
  | .status => return (.success (statusText log), log)
  | .range id first last out => do return (← range host log ⟨id, first, last⟩ out, log)

/-! ## Runs -/

/-- The settings in the file of the options, and what the options set themselves. -/
def loadSettings (host : Host m) (common : CommonOptions) : m (Option Settings) := do
  let settings ← match common.config with
    | none => pure (some Settings.default)
    | some file => do
      match ← host.readFile file with
      | .error _ => pure none
      | .ok bytes => pure (Settings.ofBytes bytes)
  return settings.map fun s =>
    { s with
      dataDirectory := common.dataDirectory <|> s.dataDirectory
      inMemory := common.inMemory || s.inMemory }

/-- The data directory of the settings. -/
def dataDirectory (host : Host m) (settings : Settings) : m String := do
  match settings.dataDirectory with
  | some directory => return directory
  | none => return match ← host.home with
    | some home => joinPath home ".vouch"
    | none => ".vouch"

/-- The log in the store at a path. -/
def openLog (host : Host m) (path : String) : m (Except Failure AuditLog) := do
  match ← openStore host path with
  | .error fault =>
    return .error ⟨"cannot open history store at " ++ path ++ ": " ++ fault.message, []⟩
  | .ok tables =>
    match AuditLog.ofStore (.disk tables) with
    | .error e => return .error (Failure.ofAudit "stored history failed verification" e)
    | .ok log => return .ok log

/-- Keeps what a log has stored, if it stores on disk. -/
def saveLog (host : Host m) (path : String) (log : AuditLog) : m Unit :=
  match log.store with
  | some (.disk tables) => host.saveStore (storeDirectory path) tables
  | _ => pure ()

/-- Carries out a command on the log of a data directory. -/
def runOn (host : Host m) (directory : String) (command : Command) : m Report := do
  match ← createDirectories host directory with
  | .error fault => return .failed ⟨"failed to create data directory", [fault.message]⟩
  | .ok () =>
    let path := joinPath directory "history"
    match ← openLog host path with
    | .error failure => return .failed failure
    | .ok log =>
      let (report, log) ← perform host log command
      saveLog host path log
      return report

/-- Carries out a command with its options. -/
def runCommand (host : Host m) (common : CommonOptions) (command : Command) : m Report := do
  match ← loadSettings host common with
  | none => return .failed ⟨"failed to load config", []⟩
  | some settings =>
    if settings.inMemory then return (← perform host AuditLog.empty command).1
    else runOn host (← dataDirectory host settings) command

/-- One run of the program with the words after its name. -/
def run (host : Host m) (words : List String) : m Outcome :=
  match Invocation.parse words with
  | none => return .misused
  | some .version => return .reported (.success versionText)
  | some .help => return .reported (.success helpText)
  | some (.run common command) => do return .reported (← runCommand host common command)

end KeyTransparency.Auditor
