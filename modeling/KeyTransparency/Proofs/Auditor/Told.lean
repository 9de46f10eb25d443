import KeyTransparency.Proofs.Audit.Reads
import KeyTransparency.Proofs.Auditor.Perform
import KeyTransparency.Proofs.Wire.Messages

/-!
# What a command tells

What a command prints is written here without the program, from what the log replies: what is
told of a directory that is started (`InitTold`) or continued (`ExtendTold`), the listing of the
directories (`StatusTold`), and the snapshots of a range and the file they are written to
(`RangeTold`).

* `tells_perform`: that is what a command tells, of any log whose histories are sound.
-/

namespace KeyTransparency

namespace Auditor

open Workspace

/-- A directory is started if the log takes the snapshots in the file under the key, and is told
with its address and its latest epoch, which is the number of its snapshots less one. If not,
nothing is printed, and it is told what is wrong with the key, or with the file, or why the log
refuses the snapshots in it. -/
def InitTold (log : AuditLog) (address key file : String) (told : Report × AuditLog) (w : Workspace) : Prop :=
  (∃ key' snapshots id latest, parseKey key = .ok key' ∧ Lists w file snapshots ∧
    log.start address key' snapshots = (.ok id, told.2) ∧ snapshots ≠ [] ∧
    told.2.latest id = .ok latest ∧ latest.epoch.toNat = snapshots.length - 1 ∧
    told.1 = .success ("Directory: " ++ id.hex ++ "\n" ++ "  address: " ++ address ++ "\n" ++
      "  latest epoch: " ++ toString latest.epoch ++ "\n")) ∨
  ∃ failure, told = (.failed failure, log) ∧
    (parseKey key = .error failure ∨ ∃ key', parseKey key = .ok key' ∧
      (Unlisted w file failure ∨ ∃ snapshots e, Lists w file snapshots ∧
        (log.start address key' snapshots).1 = .error e ∧
        failure = ⟨"init" ++ " rejected (" ++ e.status.message ++ "): " ++ e.message, []⟩))

/-- A directory is continued if the log takes the snapshots in the file, and their number and the
latest epoch are told. If not, nothing is printed, and it is told what is wrong with the file, or
why the log refuses the snapshots in it. -/
def ExtendTold (log : AuditLog) (id : DirectoryId) (file : String) (told : Report × AuditLog) (w : Workspace) : Prop :=
  (∃ run latest, Lists w file run ∧ log.extend id run = (.ok run.length, told.2) ∧
    told.2.latest id = .ok latest ∧
    told.1 = .success ("Admitted " ++ toString run.length ++ " snapshots; latest epoch " ++
      toString latest.epoch ++ "\n")) ∨
  ∃ failure, told = (.failed failure, log) ∧
    (Unlisted w file failure ∨ ∃ run e, Lists w file run ∧ (log.extend id run).1 = .error e ∧
      failure = ⟨"extend" ++ " rejected (" ++ e.status.message ++ "): " ++ e.message, []⟩)

/-- All directories of the log are listed, in its order, after their number. -/
def StatusTold (log : AuditLog) (told : Report × AuditLog) : Prop :=
  told = (.success ("Audited directories: " ++ toString log.directories.length ++ "\n" ++
    String.join (log.directories.map fun d => "  " ++ d.id.hex ++ " address=" ++ d.address ++
      " latest_epoch=" ++ toString d.latestEpoch ++ "\n")), log)

/-- What is told of a range, and what is written of it: the files `w` are those before it, and
`after` are those after it. -/
structure RangeTold (log : AuditLog) (id : DirectoryId) (first last : Epoch) (out : Option String)
    (told : Report × AuditLog) (w after : Workspace) : Prop where
  unchanged : told.2 = log
  /-- The snapshots that the log hands out are shown, one on each line, whether or not they can be
  written. -/
  shown : ∀ run, log.observedRange id first last = .ok run →
    ∃ lines, lines = String.join (run.map fun s => "  epoch=" ++ toString s.epoch ++ " root=" ++ s.root.hex ++
        " digest=" ++ s.digest.hex ++ "\n") ∧
      ((out = none ∧ told.1 = .success lines) ∨
        ∃ path, out = some path ∧ (told.1 = .success (lines ++ "Wrote response to " ++ path ++ "\n") ∨
          ∃ fault : FileFault, told.1 = ⟨lines, some ⟨"failed to write " ++ path, [fault.message]⟩⟩))
  /-- What the log does not hand out is told by the status of its error. -/
  refused : ∀ e, log.observedRange id first last = .error e →
    told.1 = .failed ⟨"range query failed: " ++ e.status.message, []⟩
  /-- A range whose status is good does not fail, unless it cannot be written. -/
  served : (log.answer ⟨id, first, last⟩).status = .ok →
    told.1.failure = none ∨ ∃ path fault, out = some path ∧
      w.setContent path (log.answer ⟨id, first, last⟩).toBytes = (.error fault, w) ∧
      told.1.failure = some ⟨"failed to write " ++ path, [fault.message]⟩
  /-- What is written is the response, unless a device keeps nothing of it, and is read back as it
  if its length can be written. -/
  written : ∀ path, out = some path → told.1.failure = none →
    ∃ run, log.answer ⟨id, first, last⟩ = .ofHistory run ∧
      (run.length < UInt64.size →
        Response.ofBytes (log.answer ⟨id, first, last⟩).toBytes = .ok (log.answer ⟨id, first, last⟩)) ∧
      (after.entryOf path = .ok (.file (log.answer ⟨id, first, last⟩).toBytes) ∨
        ∃ device, after.entryOf path = .ok (.device device))

/-- What a command tells of a log and of what it wrote, and the log after it, by what the log
replies: the files `w` are those before it, and `after` are those after it. -/
def Tells (log : AuditLog) (command : Command) (told : Report × AuditLog) (w after : Workspace) : Prop :=
  match command with
  | .init address key file => InitTold log address key file told w
  | .extend id file => ExtendTold log id file told w
  | .status => StatusTold log told
  | .range id first last out => RangeTold log id first last out told w after

variable {log log' : AuditLog} {address : String} {id : DirectoryId} {first last : Epoch} {snapshots : List Snapshot}

/-- A directory that was started has its snapshots, from epoch 0 on. -/
theorem exists_latest_of_start {key : PublicKey} {snapshots : List Snapshot}
    (h : log.start address key snapshots = (.ok id, log')) :
    snapshots ≠ [] ∧ ∃ latest, log'.latest id = .ok latest ∧ latest.epoch.toNat = snapshots.length - 1 := by
  rcases log.start_cases address key snapshots with ⟨e, he⟩ | ⟨first, rest, h', rfl, -, -, hb, he⟩ <;>
    cases h.symm.trans he
  refine ⟨List.cons_ne_nil first rest, h'.latest, AuditLog.latest_insert log first.directoryId h' _, ?_⟩
  have hsound := (AuditLog.sound_of_build hb).1
  obtain ⟨-, rfl⟩ := History.build_eq_ok_iff.mp hb
  have hlen := hsound.length_eq
  exact (Nat.sub_eq_of_eq_add hlen).symm

/-- A good status is never that of an error. -/
theorem status_ne_ok_of_observedRange (hl : log.Sound) {e : AuditError}
    (hr : log.observedRange id first last = .error e) : e.status ≠ .ok := by
  intro hstatus
  rw [AuditLog.observedRange_eq hl] at hr
  split at hr
  · cases hr
    cases hstatus
  · split at hr <;> cases hr
    cases hstatus

theorem eq_ofHistory_of_asHistory {r : Response} {run : List Snapshot} (h : r.asHistory = .ok run) :
    r = .ofHistory run := by
  obtain ⟨hok, hbody, -, -⟩ := Response.asHistory_eq_ok_iff.mp h
  obtain ⟨status, body⟩ := r
  have hstatus : status = .ok := of_decide_eq_true hok
  have hbody : body = some (.history run) := hbody
  rw [hstatus, hbody, Response.ofHistory]

theorem initTold_init (held : List String) (log : AuditLog) (address key file : String) (w : Workspace) :
    InitTold log address key file ((init (host held) log address key file).run w).1 w := by
  rcases init_cases held log address key file w with
    ⟨failure, he, hrefused⟩ | ⟨key', snapshots, id, log', hkey, hlists, hs, he⟩
  · rw [he]
    exact .inr ⟨failure, rfl, hrefused⟩
  · rw [he]
    obtain ⟨hne, latest, hlatest, hepoch⟩ := exists_latest_of_start hs
    have htext : toString latest.epoch = toString (snapshots.length - 1) := congrArg toString hepoch
    refine .inl ⟨key', snapshots, id, latest, hkey, hlists, hs, hne, hlatest, hepoch, ?_⟩
    rw [htext]
    rfl

theorem extendTold_extend (held : List String) (log : AuditLog) (id : DirectoryId) (file : String) (w : Workspace) :
    ExtendTold log id file ((extend (host held) log id file).run w).1 w := by
  rcases extend_cases held log id file w with ⟨failure, he, hrefused⟩ | ⟨run, log', latest, hlists, hx, hlatest, he⟩
  · rw [he]
    exact .inr ⟨failure, rfl, hrefused⟩
  · rw [he]
    exact .inl ⟨run, latest, hlists, hx, hlatest, rfl⟩

/-- What is written of a response is read back as it. -/
theorem read_answer (hhistory : (log.answer ⟨id, first, last⟩).asHistory = .ok snapshots)
    (hlen : snapshots.length < UInt64.size) :
    Response.ofBytes (log.answer ⟨id, first, last⟩).toBytes = .ok (log.answer ⟨id, first, last⟩) := by
  have hwritable : (log.answer ⟨id, first, last⟩).Writable := by
    rw [eq_ofHistory_of_asHistory hhistory]
    rintro body hbody
    cases hbody
    exact hlen
  have hread := Response.ofBytes_toBytes_append hwritable []
  rwa [List.append_nil] at hread

/-- A range that the log does not hand out. -/
theorem rangeTold_of_error (held : List String) (hl : log.Sound) {e : AuditError}
    (hr : log.observedRange id first last = .error e) (out : Option String) (w : Workspace) :
    RangeTold log id first last out (((range (host held) log ⟨id, first, last⟩ out).run w).1, log) w
      ((range (host held) log ⟨id, first, last⟩ out).run w).2 := by
  have hanswer : log.answer ⟨id, first, last⟩ = .failure e.status := by rw [AuditLog.answer, hr]
  have hnone (run : List Snapshot) : (log.answer ⟨id, first, last⟩).asHistory ≠ .ok run := fun h => by
    have hbody := congrArg Response.body (hanswer.symm.trans (eq_ofHistory_of_asHistory h))
    cases hbody
  rcases range_cases held log ⟨id, first, last⟩ out w with ⟨_, -, he⟩ | ⟨run, hhistory, -⟩
  · rw [hanswer] at he
    rw [he]
    refine ⟨rfl, fun run h => ?_, fun e' h => ?_, fun hstatus => ?_, fun _ _ hnone => ?_⟩
    · cases hr.symm.trans h
    · cases hr.symm.trans h
      rfl
    · rw [hanswer] at hstatus
      exact absurd hstatus (status_ne_ok_of_observedRange hl hr)
    · cases hnone
  · exact absurd hhistory (hnone run)

/-- A range that the log hands out. -/
theorem rangeTold_of_ok (held : List String) (hl : log.Sound)
    (hr : log.observedRange id first last = .ok snapshots) (out : Option String) (w : Workspace) :
    RangeTold log id first last out (((range (host held) log ⟨id, first, last⟩ out).run w).1, log) w
      ((range (host held) log ⟨id, first, last⟩ out).run w).2 := by
  have hhistory : (log.answer ⟨id, first, last⟩).asHistory = .ok snapshots := AuditLog.asHistory_answer hl hr
  have hshown (run : List Snapshot) (h : log.observedRange id first last = .ok run) : run = snapshots := by
    cases hr.symm.trans h
    rfl
  have hrefused (e : AuditError) : log.observedRange id first last ≠ .error e := fun h => by
    cases hr.symm.trans h
  rcases range_cases held log ⟨id, first, last⟩ out w with ⟨_, herror, -⟩ | ⟨run, hrun, hcases⟩
  · cases hhistory.symm.trans herror
  · cases hhistory.symm.trans hrun
    rcases hcases with ⟨rfl, he⟩ | ⟨path, rfl, ⟨fault, hset, he⟩ | ⟨w', hset, he⟩⟩
    · rw [he]
      refine ⟨rfl, fun run h => ?_, fun e h => absurd h (hrefused e), fun _ => .inl rfl, fun path hpath => ?_⟩
      · cases hshown run h
        exact ⟨_, rfl, .inl ⟨rfl, rfl⟩⟩
      · cases hpath
    · rw [he]
      refine ⟨rfl, fun run h => ?_, fun e h => absurd h (hrefused e),
        fun _ => .inr ⟨path, fault, rfl, hset, rfl⟩, fun _ _ hnone => ?_⟩
      · cases hshown run h
        exact ⟨_, rfl, .inr ⟨path, rfl, .inr ⟨fault, rfl⟩⟩⟩
      · cases hnone
    · rw [he]
      refine ⟨rfl, fun run h => ?_, fun e h => absurd h (hrefused e), fun _ => .inl rfl, fun path' hpath _ => ?_⟩
      · cases hshown run h
        exact ⟨_, rfl, .inr ⟨path, rfl, .inl rfl⟩⟩
      · cases hpath
        refine ⟨snapshots, eq_ofHistory_of_asHistory hhistory, read_answer hhistory, ?_⟩
        rcases w.setContent_cases path (log.answer ⟨id, first, last⟩).toBytes with ⟨_, h⟩ | ⟨_, h, -, hentry⟩ <;>
          cases hset.symm.trans h
        exact hentry

theorem rangeTold_range (held : List String) (hl : log.Sound) (id : DirectoryId) (first last : Epoch)
    (out : Option String) (w : Workspace) :
    RangeTold log id first last out (((range (host held) log ⟨id, first, last⟩ out).run w).1, log) w
      ((range (host held) log ⟨id, first, last⟩ out).run w).2 := by
  cases hr : log.observedRange id first last with
  | error e => exact rangeTold_of_error held hl hr out w
  | ok snapshots => exact rangeTold_of_ok held hl hr out w

theorem tells_perform (held : List String) (hl : log.Sound) (command : Command) (w : Workspace) :
    Tells log command ((perform (host held) log command).run w).1 w ((perform (host held) log command).run w).2 := by
  cases command with
  | init address key file => exact initTold_init held log address key file w
  | extend id file => exact extendTold_extend held log id file w
  | status => exact rfl
  | range id first last out =>
    rw [run_perform_range]
    exact rangeTold_range held hl id first last out w

end Auditor

end KeyTransparency
