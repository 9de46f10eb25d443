import KeyTransparency.Proofs.Auditor.Opening
import KeyTransparency.Proofs.Auditor.Told

/-!
# Commands one after the other

Every command is a run of the program of its own, which opens the store of the data directory,
reads all histories back, and saves them in the end. A log in memory that is given the same
commands (`Alongside`) is the log in the store (`Backed`): that log is opened as it was saved,
and tells what it would tell without a store.

* `run_of_backed`: one command;
* `Alongside.backed`: by induction, all of them;
* `commands_as_in_memory`: every command in a sequence reports what it reports on the log in
  memory.
-/

namespace KeyTransparency

namespace Auditor

open Workspace

/-- A path leads to the store of the data directory, by whatever names. -/
def SameStore (w : Workspace) (directory directory' : String) : Prop :=
  opening directory' w = opening directory w ∧
    (opening directory w).2.locate (historyDirectory directory') =
      (opening directory w).2.locate (historyDirectory directory)

/-- The options select the data directory, and do not ask for histories in memory only. -/
def Selects (w : Workspace) (common : CommonOptions) (directory : String) : Prop :=
  ∃ settings, ((loadSettings (host []) common).run w).1 = some settings ∧ settings.inMemory = false ∧
    SameStore w directory ((dataDirectory (host []) settings).run w).1

/-- The command on a log in memory, with the files that it finds once the data directory is open:
what it reports, the log after it, and the files after it. -/
def inMemory (directory : String) (w : Workspace) (log : AuditLog) (command : Command) :
    (Report × AuditLog) × Workspace :=
  (perform (host []) log command).run (opening directory w).2

/-- The files after any number of commands on a data directory without histories, and a log in
memory that was given the same commands. Between them others may do as they like with the files,
as long as the store stays as it is. -/
inductive Alongside (directory : String) : Workspace → AuditLog → Prop
  | fresh {w : Workspace} : (opening directory w).1 = .ok Tables.empty → Alongside directory w .empty
  | others {w w' : Workspace} {log : AuditLog} : Alongside directory w log →
      (opening directory w').1 = (opening directory w).1 → Alongside directory w' log
  | command {w : Workspace} {log : AuditLog} {words : List String} {common : CommonOptions} {command : Command} :
      Alongside directory w log → Invocation.parse words = some (.run common command) →
      Selects w common directory → command.Writable →
      Alongside directory ((run (host []) words).run w).2 (inMemory directory w log command).1.2

/-- The store of the data directory is that of a log which is `log` but for the store. -/
def Backed (directory : String) (w : Workspace) (log : AuditLog) : Prop :=
  ∃ (disk : AuditLog) (tables : Tables), disk.Stored ∧ disk.store = some (.disk tables) ∧ disk.forgetStore = log ∧
    (opening directory w).1 = .ok tables

variable {directory : String} {w w' : Workspace} {log : AuditLog} {words : List String} {common : CommonOptions}
  {command : Command} {tables : Tables}

/-! ## Settings -/

theorem files_loadSettings (w : Workspace) (common : CommonOptions) :
    ((loadSettings (host []) common).run w).2 = w := by
  cases hc : common.config with
  | none => rw [loadSettings, hc]; rfl
  | some file =>
    have hrun : ((host []).readFile file).run w = (w.contentOf file, w) := rfl
    rw [loadSettings, hc]
    dsimp only
    rw [run_bind_of_eq hrun]
    cases w.contentOf file <;> rfl

theorem files_dataDirectory (w : Workspace) (settings : Settings) :
    ((dataDirectory (host []) settings).run w).2 = w := by
  rw [dataDirectory]
  cases settings.dataDirectory <;> rfl

/-- A command with options that select the data directory is carried out on its log. -/
theorem run_of_selects (hwords : Invocation.parse words = some (.run common command))
    (hs : Selects w common directory) : ∃ directory', SameStore w directory directory' ∧
      (run (host []) words).run w =
        (.reported ((runOn (host []) directory' command).run w).1, ((runOn (host []) directory' command).run w).2) := by
  obtain ⟨settings, hload, hmemory, hsame⟩ := hs
  refine ⟨_, hsame, ?_⟩
  generalize hd : ((dataDirectory (host []) settings).run w).1 = directory'
  have hload : (loadSettings (host []) common).run w = (some settings, w) :=
    Prod.ext hload (files_loadSettings w common)
  have hdirectory : (dataDirectory (host []) settings).run w = (directory', w) :=
    Prod.ext hd (files_dataDirectory w settings)
  have hcommand : (runCommand (host []) common command).run w =
      (((runOn (host []) directory' command).run w).1, ((runOn (host []) directory' command).run w).2) := by
    rw [runCommand, run_bind_of_eq hload]
    dsimp only
    rw [hmemory, if_neg Bool.false_ne_true]
    exact run_bind_of_eq hdirectory
  rw [run, hwords]
  dsimp only
  rw [run_bind_of_eq hcommand]
  rfl

/-! ## One command -/

/-- On a store whose log can be opened, a command is carried out on that log, and what the log
has stored then is saved. -/
theorem run_runOn {disk : AuditLog} (ho : opening directory w = (.ok tables, w'))
    (hlog : AuditLog.ofStore (.disk tables) = .ok disk) {report : Report} {log : AuditLog} {after : Workspace}
    (hp : (perform (host []) disk command).run w' = ((report, log), after)) {tables' : Tables}
    (hstore : log.store = some (.disk tables')) : (runOn (host []) directory command).run w =
      (report, after.saveStore (historyDirectory directory) tables') := by
  obtain ⟨v, hmade, hopen⟩ := opening_eq_ok ho
  have hopenLog : (openLog (host []) (joinPath directory "history")).run v = (.ok disk, w') := by
    rw [openLog, run_bind_of_eq hopen]
    dsimp only
    rw [hlog]
    rfl
  have hsave : (saveLog (host []) (joinPath directory "history") log).run after =
      ((), after.saveStore (historyDirectory directory) tables') := by
    rw [saveLog, hstore]
    rfl
  rw [runOn, run_bind_of_eq hmade]
  dsimp only
  rw [run_bind_of_eq hopenLog]
  dsimp only
  rw [run_bind_of_eq hp]
  dsimp only
  rw [run_bind_of_eq hsave]
  rfl

/-- A store is saved where it was opened, by whatever names. -/
theorem SameStore.saveStore_eq {directory' : String} {after : Workspace} {tables' : Tables}
    (h : SameStore w directory directory') (ho : opening directory w = (.ok tables, w'))
    (hkeeps : w'.KeepsStores after) : after.saveStore (historyDirectory directory') tables' =
      after.saveStore (historyDirectory directory) tables' := by
  obtain ⟨l, hl, -⟩ := storeOf_eq_ok_iff.mp (ready_of_opening ho).store
  have hl' := h.2
  rw [ho] at hl'
  have hafter := locate_of_keeps hkeeps.keepsDirectories hl
  have hafter' := locate_of_keeps hkeeps.keepsDirectories (hl'.trans hl)
  rw [Workspace.saveStore, Workspace.saveStore, hafter, hafter']

/-- A command in the store does to its log, and reports, what it does and reports without a
store. -/
theorem run_of_backed (hb : Backed directory w log) (hwords : Invocation.parse words = some (.run common command))
    (hs : Selects w common directory) (hw : command.Writable) :
    ∃ tables, (run (host []) words).run w = (.reported (inMemory directory w log command).1.1,
        (inMemory directory w log command).2.saveStore (historyDirectory directory) tables) ∧
      Backed directory ((run (host []) words).run w).2 (inMemory directory w log command).1.2 ∧
      (inMemory directory w log command).2.isDirectory (historyDirectory directory) = true := by
  obtain ⟨disk, tables, hstored, hstore, rfl, ho⟩ := hb
  have ho : opening directory w = (.ok tables, (opening directory w).2) := Prod.ext ho rfl
  have hlog : AuditLog.ofStore (.disk tables) = .ok disk := by
    have hreopen := hstored.reopen
    rwa [AuditLog.reopen, hstore] at hreopen
  obtain ⟨call, hcall, hstep⟩ := exists_step_of_perform [] disk (opening directory w).2 hw
  obtain ⟨tables', hstore'⟩ := AuditLog.exists_disk_step hstore call
  have hkeeps := keepsStores_perform [] disk command (opening directory w).2
  have hmemory : inMemory directory w disk.forgetStore command =
      ((((perform (host []) disk command).run (opening directory w).2).1.1, (disk.step call).2.forgetStore),
        ((perform (host []) disk command).run (opening directory w).2).2) := by
    rw [inMemory, perform_forgetStore, StateT.run_map, ← hstep]
    rfl
  have hp : (perform (host []) disk command).run (opening directory w).2 =
      ((((perform (host []) disk command).run (opening directory w).2).1.1, (disk.step call).2),
        ((perform (host []) disk command).run (opening directory w).2).2) :=
    Prod.ext (Prod.ext rfl hstep) rfl
  obtain ⟨directory', hsame, hrun⟩ := run_of_selects hwords hs
  rw [run_runOn (hsame.1.trans ho) hlog hp hstore', hsame.saveStore_eq ho hkeeps] at hrun
  have hready := (ready_of_opening ho).of_keepsStores hkeeps
  refine ⟨tables', ?_, ?_, ?_⟩
  · rw [hmemory]
    exact hrun
  · rw [hrun, hmemory]
    exact ⟨_, tables', hstored.step hcall, hstore', rfl, congrArg Prod.fst (opening_of_ready (hready.saveStore tables'))⟩
  · rw [hmemory]
    exact isDirectory_of_storeOf hready.store

/-! ## All commands -/

theorem Alongside.backed (h : Alongside directory w log) : Backed directory w log := by
  induction h with
  | fresh h => exact ⟨⟨∅, some (.disk .empty)⟩, .empty, AuditLog.stored_empty (.inr rfl), rfl, rfl, h⟩
  | others _ hsame ih =>
    obtain ⟨disk, tables, hstored, hstore, hlog, ho⟩ := ih
    exact ⟨disk, tables, hstored, hstore, hlog, hsame.trans ho⟩
  | command _ hwords hs hw ih =>
    obtain ⟨-, -, hbacked, -⟩ := run_of_backed ih hwords hs hw
    exact hbacked

theorem Backed.sound (h : Backed directory w log) : log.Sound := by
  obtain ⟨disk, -, hstored, -, rfl, -⟩ := h
  exact hstored.sound.of_histories rfl

/-- What was written stays when the store is saved after it. -/
theorem Tells.saveStore {told : Report × AuditLog} {after : Workspace} (h : Tells log command told w after)
    {path : String} (hd : after.isDirectory path = true) (tables : Tables) :
    Tells log command told w (after.saveStore path tables) := by
  cases command with
  | init address key file => exact h
  | extend id file => exact h
  | status => exact h
  | range id first last out =>
    have h : RangeTold log id first last out told w after := h
    refine ⟨h.unchanged, h.shown, h.refused, h.served, fun file hout hnone => ?_⟩
    obtain ⟨run, hanswer, hread, hentry⟩ := h.written file hout hnone
    refine ⟨run, hanswer, hread, hentry.imp (entryOf_saveStore hd tables · nofun) ?_⟩
    rintro ⟨device, hdevice⟩
    exact ⟨device, entryOf_saveStore hd tables hdevice nofun⟩

namespace Sample

open KeyTransparency.Sample (key first left)

/-- An empty data directory, and a file with a history of two epochs. -/
def files : Workspace :=
  (Workspace.empty.put ["tmp", ".workspace", "data"] (.directory none)).put ["tmp", ".workspace", "snapshots.bin"]
    (.file ((Codec.list Snapshot.codec).encode [first, left]))

def startWords : List String :=
  ["init", "-d", "data", "--address", "directory:1", "--key", key.hex, "--file", "snapshots.bin"]

def startCommand : Command := .init "directory:1" key.hex "snapshots.bin"

/-- The run that starts the history. -/
def start : Outcome × Workspace := (run (host []) startWords).run files

/-- The same on a log in memory. -/
def startInMemory : (Report × AuditLog) × Workspace := inMemory "data" files .empty startCommand

/-- The same data directory by another name. -/
def rangeWords : List String :=
  ["-d", "./data", "range", "--id", first.directoryId.hex, "--start", "0", "--end", "1", "--out", "range.bin"]

def rangeCommand : Command := .range first.directoryId 0 1 (some "range.bin")

theorem parse_words :
    Invocation.parse startWords = some (.run ⟨none, some "data", false⟩ startCommand) ∧
      Invocation.parse rangeWords = some (.run ⟨none, some "./data", false⟩ rangeCommand) := by
  decide +kernel

theorem opening_files : (opening "data" files).1 = .ok Tables.empty := by
  have hfiles : files.isDirectory "data" = true ∧
      files.storeOf (historyDirectory "data") = .error .notFound ∧
      files.locateNew (historyDirectory "data") = .ok ["tmp", ".workspace", "data", "history"] := by
    decide +kernel
  exact opening_of_missing (.inr hfiles.1) hfiles.2.1 hfiles.2.2

theorem alongside_start : Alongside "data" start.2 startInMemory.1.2 :=
  .command (.fresh opening_files) parse_words.1 ⟨_, rfl, rfl, rfl, rfl⟩
    (show (Text.utf8 "directory:1").length < UInt64.size by decide)

theorem sameStore_start : SameStore start.2 "data" "./data" := by
  rw [SameStore]
  decide +kernel

theorem selects_start : Selects start.2 ⟨none, some "./data", false⟩ "data" := ⟨_, rfl, rfl, sameStore_start⟩

end Sample

/-- On a data directory that had no histories, after any number of commands, each a run of its
own, and whatever others did to other files: a command reports what it reports on one log in
memory that was given all the commands before it, and that is what this log replies. -/
theorem commands_as_in_memory (h : Alongside directory w log)
    (hwords : Invocation.parse words = some (.run common command)) (hs : Selects w common directory)
    (hw : command.Writable) :
    ((run (host []) words).run w).1 = .reported (inMemory directory w log command).1.1 ∧
    Tells log command (inMemory directory w log command).1 (opening directory w).2 ((run (host []) words).run w).2 := by
  obtain ⟨tables, hrun, -, hd⟩ := run_of_backed h.backed hwords hs hw
  rw [hrun]
  exact ⟨rfl, (tells_perform [] h.backed.sound command (opening directory w).2).saveStore hd tables⟩

theorem commands_as_in_memory_sample :
    Alongside "data" Sample.start.2 Sample.startInMemory.1.2 ∧
    Selects Sample.start.2 ⟨none, some "./data", false⟩ "data" ∧
    ∃ report snapshots, ((run (host []) Sample.rangeWords).run Sample.start.2).1 = .reported report ∧
      report.failure = none ∧
      Sample.startInMemory.1.2.answer ⟨KeyTransparency.Sample.first.directoryId, 0, 1⟩ = .ofHistory snapshots := by
  obtain ⟨hreport, htells⟩ := commands_as_in_memory Sample.alongside_start Sample.parse_words.2 Sample.selects_start
    trivial
  have hnone : (inMemory "data" Sample.start.2 Sample.startInMemory.1.2 Sample.rangeCommand).1.1.failure = none := by
    decide +kernel
  obtain ⟨snapshots, hanswer, -⟩ := RangeTold.written htells _ rfl hnone
  exact ⟨Sample.alongside_start, Sample.selects_start, _, snapshots, hreport, hnone, hanswer⟩

end Auditor

end KeyTransparency
