import KeyTransparency.Auditor.Program
import KeyTransparency.Proofs.Audit.Restart
import KeyTransparency.Proofs.Auditor.Workspace

/-!
# One command

A command asks the log for one thing at most, and reports what the log replies. What it reports,
and what it does to the files, does not depend on the store of the log (`perform_forgetStore`,
on any machine). On a workspace the commands are described once, by cases (`init_cases`,
`extend_cases`, `range_cases`); from that follows what a command does to the log
(`exists_step_of_perform`) and to the files (`keepsStores_perform`).
-/

namespace KeyTransparency

namespace AuditLog

theorem start_forgetStore (log : AuditLog) (address : String) (key : PublicKey) (snapshots : List Snapshot) :
    log.forgetStore.start address key snapshots =
      ((log.start address key snapshots).1, (log.start address key snapshots).2.forgetStore) := by
  have h := step_forgetStore log (.start address key snapshots)
  simp only [step, Prod.mk.injEq, Reply.id.injEq] at h
  exact Prod.ext h.1 h.2

theorem extend_forgetStore (log : AuditLog) (id : DirectoryId) (run : List Snapshot) :
    log.forgetStore.extend id run = ((log.extend id run).1, (log.extend id run).2.forgetStore) := by
  have h := step_forgetStore log (.extend id run)
  simp only [step, Prod.mk.injEq, Reply.count.injEq] at h
  exact Prod.ext h.1 h.2

/-- The latest snapshot of a history that was put in. -/
theorem latest_insert (log : AuditLog) (id : DirectoryId) (h : History) (store : Option Store) :
    latest ⟨log.histories.insert id h, store⟩ id = .ok h.latest := by
  simp [latest, history, bind, Except.bind, pure, Except.pure]

/-- A log that stores on disk goes on to. -/
theorem exists_disk_step {log : AuditLog} {tables : Tables} (h : log.store = some (.disk tables))
    (call : Call) : ∃ tables', (log.step call).2.store = some (.disk tables') := by
  rcases log.step_cases call with ⟨-, he⟩ | ⟨_, _, _, _, _, -, -, -, he⟩ | ⟨_, _, _, -, -, -, he⟩
  · exact ⟨tables, by rw [he, h]⟩
  · exact ⟨_, by rw [he, h]; rfl⟩
  · exact ⟨_, by rw [he, h]; rfl⟩

end AuditLog

namespace Auditor

open Workspace

/-- The address that the command brings, if any, has a length that can be written. -/
def Command.Writable : Command → Prop
  | .init address _ _ => (Text.utf8 address).length < UInt64.size
  | _ => True

/-- The bytes in the file are those of the snapshots. -/
def Lists (w : Workspace) (file : String) (snapshots : List Snapshot) : Prop :=
  ∃ bytes, w.contentOf file = .ok bytes ∧ (Codec.list Snapshot.codec).read bytes = .ok snapshots

/-- There are no snapshots in the file, for the reason that is told: it cannot be read, or its
bytes are not those of a list. -/
def Unlisted (w : Workspace) (file : String) (failure : Failure) : Prop :=
  (∃ fault, w.contentOf file = .error fault ∧ failure = ⟨"failed to read " ++ file, [fault.message]⟩) ∨
  ∃ bytes cause, w.contentOf file = .ok bytes ∧ (Codec.list Snapshot.codec).read bytes = .error cause ∧
    failure = ⟨file ++ " is not a postcard snapshot list", [cause.message]⟩

/-! ## With and without a store -/

section

variable {m : Type → Type} [Monad m] [LawfulMonad m]

/-- What is reported, and what is done on the machine, is the same with and without a store. -/
theorem perform_forgetStore (host : Host m) (log : AuditLog) (command : Command) :
    perform host log.forgetStore command =
      (fun told => (told.1, told.2.forgetStore)) <$> perform host log command := by
  cases command with
  | init address key file =>
    simp only [perform, init]
    cases parseKey key with
    | error failure => rw [map_pure]
    | ok key =>
      dsimp only
      rw [map_bind]
      refine bind_congr fun read => ?_
      cases read with
      | error failure => rw [map_pure]
      | ok snapshots =>
        simp only [AuditLog.start_forgetStore]
        cases log.start address key snapshots with
        | mk result log => cases result <;> rw [map_pure]
  | extend id file =>
    simp only [perform, extend]
    rw [map_bind]
    refine bind_congr fun read => ?_
    cases read with
    | error failure => rw [map_pure]
    | ok snapshots =>
      simp only [AuditLog.extend_forgetStore]
      cases log.extend id snapshots with
      | mk result log =>
        cases result with
        | error e => rw [map_pure]
        | ok admitted =>
          dsimp only
          rw [show log.forgetStore.latest id = log.latest id from rfl]
          cases log.latest id <;> rw [map_pure]
  | status =>
    simp only [perform]
    rw [map_pure]
    rfl
  | range id first last out =>
    simp only [perform]
    rw [map_bind]
    refine bind_congr fun report => ?_
    rw [map_pure]

end

/-! ## On a workspace -/

variable {held : List String} {log log' : AuditLog} {w w' : Workspace} {report : Report} {address key file : String}
  {id : DirectoryId} {first last : Epoch} {out : Option String} {command : Command}

/-- Reading changes no files. It gives the snapshots in the file, or tells why it does not. -/
theorem run_readSnapshots_cases (held : List String) (w : Workspace) (file : String) :
    (∃ failure, Unlisted w file failure ∧ (readSnapshots (host held) file).run w = (.error failure, w)) ∨
    ∃ snapshots, Lists w file snapshots ∧ (readSnapshots (host held) file).run w = (.ok snapshots, w) := by
  have hrun : ((host held).readFile file).run w = (w.contentOf file, w) := rfl
  rw [readSnapshots, run_bind_of_eq hrun]
  cases hc : w.contentOf file with
  | error fault => exact .inl ⟨_, .inl ⟨fault, hc, rfl⟩, rfl⟩
  | ok bytes =>
    dsimp only
    cases hd : (Codec.list Snapshot.codec).read bytes with
    | error cause => exact .inl ⟨_, .inr ⟨bytes, cause, hc, hd, rfl⟩, rfl⟩
    | ok snapshots => exact .inr ⟨snapshots, ⟨bytes, hc, hd⟩, rfl⟩

/-- A directory is started with the snapshots in a file, or nothing is changed: the key is read
first, then the file, and then the log is asked. -/
theorem init_cases (held : List String) (log : AuditLog) (address key file : String) (w : Workspace) :
    (∃ failure, (init (host held) log address key file).run w = ((.failed failure, log), w) ∧
      (parseKey key = .error failure ∨ ∃ key', parseKey key = .ok key' ∧
        (Unlisted w file failure ∨ ∃ snapshots e, Lists w file snapshots ∧
          (log.start address key' snapshots).1 = .error e ∧ failure = rejected "init" e))) ∨
    ∃ key' snapshots id log', parseKey key = .ok key' ∧ Lists w file snapshots ∧
      log.start address key' snapshots = (.ok id, log') ∧
      (init (host held) log address key file).run w = ((.success (startedText id address snapshots), log'), w) := by
  rw [init]
  cases parseKey key with
  | error failure => exact .inl ⟨failure, rfl, .inl rfl⟩
  | ok key' =>
    dsimp only
    rcases run_readSnapshots_cases held w file with ⟨failure, hunlisted, hread⟩ | ⟨snapshots, hlists, hread⟩ <;>
      rw [run_bind_of_eq hread]
    · exact .inl ⟨failure, rfl, .inr ⟨key', rfl, .inl hunlisted⟩⟩
    · dsimp only
      rcases log.start_cases address key' snapshots with ⟨e, he⟩ | ⟨_, _, _, -, -, -, -, he⟩
      · rw [he]
        exact .inl ⟨_, rfl, .inr ⟨key', rfl, .inr ⟨snapshots, e, hlists, by rw [he], rfl⟩⟩⟩
      · rw [he]
        exact .inr ⟨key', snapshots, _, _, rfl, hlists, he, rfl⟩

/-- A directory is continued with the snapshots in a file, or nothing is changed: the file is read
first, and then the log is asked. -/
theorem extend_cases (held : List String) (log : AuditLog) (id : DirectoryId) (file : String) (w : Workspace) :
    (∃ failure, (extend (host held) log id file).run w = ((.failed failure, log), w) ∧
      (Unlisted w file failure ∨ ∃ run e, Lists w file run ∧ (log.extend id run).1 = .error e ∧
        failure = rejected "extend" e)) ∨
    ∃ run log' latest, Lists w file run ∧ log.extend id run = (.ok run.length, log') ∧ log'.latest id = .ok latest ∧
      (extend (host held) log id file).run w = ((.success ("Admitted " ++ toString run.length ++
        " snapshots; latest epoch " ++ toString latest.epoch ++ "\n"), log'), w) := by
  rw [extend]
  rcases run_readSnapshots_cases held w file with ⟨failure, hunlisted, hread⟩ | ⟨run, hlists, hread⟩ <;>
    rw [run_bind_of_eq hread]
  · exact .inl ⟨failure, rfl, .inl hunlisted⟩
  · dsimp only
    rcases log.extend_cases id run with ⟨e, he⟩ | ⟨h, -, -, -, he⟩
    · rw [he]
      exact .inl ⟨_, rfl, .inr ⟨run, e, hlists, by rw [he], rfl⟩⟩
    · rw [he]
      dsimp only
      rw [AuditLog.latest_insert]
      exact .inr ⟨run, _, _, hlists, he, AuditLog.latest_insert log id _ _, rfl⟩

/-- A range that is not served is refused. One that is served is printed, and written if it is
asked for. -/
theorem range_cases (held : List String) (log : AuditLog) (request : RangeRequest) (out : Option String)
    (w : Workspace) :
    (∃ e, (log.answer request).asHistory = .error e ∧ (range (host held) log request out).run w =
      (.failed ⟨"range query failed: " ++ (log.answer request).status.message, []⟩, w)) ∨
    ∃ run, (log.answer request).asHistory = .ok run ∧
      ((out = none ∧ (range (host held) log request out).run w = (.success (String.join (run.map snapshotLine)), w)) ∨
      ∃ path, out = some path ∧
        ((∃ fault, w.setContent path (log.answer request).toBytes = (.error fault, w) ∧
          (range (host held) log request out).run w =
            (⟨String.join (run.map snapshotLine), some ⟨"failed to write " ++ path, [fault.message]⟩⟩, w)) ∨
        ∃ w', w.setContent path (log.answer request).toBytes = (.ok (), w') ∧
          (range (host held) log request out).run w =
            (.success (String.join (run.map snapshotLine) ++ "Wrote response to " ++ path ++ "\n"), w'))) := by
  rw [range]
  dsimp only
  cases (log.answer request).asHistory with
  | error e => exact .inl ⟨e, rfl, rfl⟩
  | ok run =>
    refine .inr ⟨run, rfl, ?_⟩
    cases out with
    | none => exact .inl ⟨rfl, rfl⟩
    | some path =>
      refine .inr ⟨path, rfl, ?_⟩
      rcases w.setContent_cases path (log.answer request).toBytes with ⟨fault, he⟩ | ⟨w', he, -⟩
      · have hrun : ((host held).writeFile path (log.answer request).toBytes).run w = (.error fault, w) := he
        exact .inl ⟨fault, he, run_bind_of_eq hrun⟩
      · have hrun : ((host held).writeFile path (log.answer request).toBytes).run w = (.ok (), w') := he
        exact .inr ⟨w', he, run_bind_of_eq hrun⟩

theorem run_perform_range (held : List String) (log : AuditLog) (w : Workspace) :
    (perform (host held) log (.range id first last out)).run w =
      ((((range (host held) log ⟨id, first, last⟩ out).run w).1, log),
        ((range (host held) log ⟨id, first, last⟩ out).run w).2) :=
  run_bind_of_eq rfl

/-- A command makes at most one call that changes the log. -/
theorem exists_step_of_perform (held : List String) (log : AuditLog) (w : Workspace) (hw : command.Writable) :
    ∃ call : AuditLog.Call, call.Writable ∧ ((perform (host held) log command).run w).1.2 = (log.step call).2 := by
  cases command with
  | init address key file =>
    rcases init_cases held log address key file w with ⟨_, he, -⟩ | ⟨key', snapshots, _, _, -, -, hs, he⟩
    · exact ⟨.directories, trivial, congrArg (·.1.2) he⟩
    · exact ⟨.start address key' snapshots, hw, (congrArg (·.1.2) he).trans (congrArg Prod.snd hs).symm⟩
  | extend id file =>
    rcases extend_cases held log id file w with ⟨_, he, -⟩ | ⟨run, _, _, -, hs, -, he⟩
    · exact ⟨.directories, trivial, congrArg (·.1.2) he⟩
    · exact ⟨.extend id run, trivial, (congrArg (·.1.2) he).trans (congrArg Prod.snd hs).symm⟩
  | status => exact ⟨.directories, trivial, rfl⟩
  | range id first last out => exact ⟨.directories, trivial, by rw [run_perform_range]; rfl⟩

/-- A command leaves all stores, and all directories. -/
theorem keepsStores_perform (held : List String) (log : AuditLog) (command : Command) (w : Workspace) :
    w.KeepsStores ((perform (host held) log command).run w).2 := by
  cases command with
  | init address key file =>
    rw [perform]
    rcases init_cases held log address key file w with ⟨_, he, -⟩ | ⟨_, _, _, _, -, -, -, he⟩ <;>
      rw [he] <;> exact .refl w
  | extend id file =>
    rw [perform]
    rcases extend_cases held log id file w with ⟨_, he, -⟩ | ⟨_, _, _, -, -, -, he⟩ <;>
      rw [he] <;> exact .refl w
  | status => exact .refl w
  | range id first last out =>
    rw [run_perform_range]
    rcases range_cases held log ⟨id, first, last⟩ out w with
      ⟨_, -, he⟩ | ⟨_, -, ⟨-, he⟩ | ⟨path, -, ⟨_, -, he⟩ | ⟨w', hset, he⟩⟩⟩ <;> rw [he]
    · exact .refl w
    · exact .refl w
    · exact .refl w
    · rcases w.setContent_cases path (log.answer ⟨id, first, last⟩).toBytes with ⟨_, h⟩ | ⟨_, h, hkeeps, -⟩ <;>
        cases hset.symm.trans h
      exact hkeeps

end Auditor

end KeyTransparency
