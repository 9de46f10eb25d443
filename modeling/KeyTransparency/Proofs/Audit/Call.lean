import KeyTransparency.Audit.Log
import KeyTransparency.Proofs.Audit.History
import KeyTransparency.Proofs.Message.Response
import KeyTransparency.Proofs.Run

/-!
# Calls to an audit log

A log is asked one thing after the other (`AuditLog.Call`) and replies to each
(`AuditLog.step`, `AuditLog.run`). What a call replies and does to the histories is said
once (`step_cases`).

A call may also be made while the medium of the store fails (`AuditLog.stepOn`,
`AuditLog.runOn`). A call that would take nothing is answered as on any medium, and one
that would take something takes it exactly if the rows can be written (`stepOn_cases`).
-/

namespace KeyTransparency.AuditLog

/-- What a log can be asked. -/
inductive Call where
  | start (address : String) (key : PublicKey) (snapshots : List Snapshot)
  | extend (id : DirectoryId) (run : List Snapshot)
  | ingest (id : DirectoryId) (r : Response)
  | observedRange (id : DirectoryId) (first last : Epoch)
  | answer (request : RangeRequest)
  | latest (id : DirectoryId)
  | contains (id : DirectoryId)
  | directories

/-- What a log replies. -/
inductive Reply where
  | id (result : Except AuditError DirectoryId)
  | count (result : Except AuditError Nat)
  | snapshots (result : Except AuditError (List Snapshot))
  | response (r : Response)
  | latest (result : Except AuditError Snapshot)
  | contained (result : Bool)
  | directories (summaries : List DirectorySummary)

/-- The reply to a call, and the log after it. -/
def step (log : AuditLog) : Call → Reply × AuditLog
  | .start address key snapshots =>
    (.id (log.start address key snapshots).1, (log.start address key snapshots).2)
  | .extend id run => (.count (log.extend id run).1, (log.extend id run).2)
  | .ingest id r => (.count (log.ingest id r).1, (log.ingest id r).2)
  | .observedRange id first last => (.snapshots (log.observedRange id first last), log)
  | .answer request => (.response (log.answer request), log)
  | .latest id => (.latest (log.latest id), log)
  | .contains id => (.contained (log.contains id), log)
  | .directories => (.directories log.directories, log)

/-- The replies to calls made one after the other, and the log after them. -/
def run (log : AuditLog) (calls : List Call) : List Reply × AuditLog := runCalls step log calls

/-- The reply to a call that is made on a medium, and the log after it. -/
def stepOn (medium : Medium) (log : AuditLog) : Call → Reply × AuditLog
  | .start address key snapshots =>
    (.id (log.startOn medium address key snapshots).1, (log.startOn medium address key snapshots).2)
  | .extend id run => (.count (log.extendOn medium id run).1, (log.extendOn medium id run).2)
  | .ingest id r => (.count (log.ingestOn medium id r).1, (log.ingestOn medium id r).2)
  | call => log.step call

/-- A call, and the medium as it is at that time. -/
structure Attempt where
  call : Call
  medium : Medium

/-- The replies to calls made one after the other, each on its medium, and the log after them. -/
def runOn (log : AuditLog) (attempts : List Attempt) : List Reply × AuditLog :=
  runCalls (fun log attempt => log.stepOn attempt.medium attempt.call) log attempts

/-- The reply to a call that fails. -/
def Call.refusal (e : AuditError) : Call → Reply
  | .start _ _ _ => .id (.error e)
  | _ => .count (.error e)

variable {log : AuditLog} {id : DirectoryId} {h : History}

/-! ## What a call does -/

theorem persist_writable (log : AuditLog) (id : DirectoryId) (record : Option Record) (snapshots : List Snapshot) :
    log.persist .writable id record snapshots = .ok (log.store.map fun store => store.put id record snapshots) := by
  rw [persist]
  cases log.store <;> rfl

/-- What is written on any medium is written on one that takes everything. -/
theorem persist_writable_of_ok {medium : Medium} {record : Option Record} {snapshots : List Snapshot}
    {store : Option Store} (hp : log.persist medium id record snapshots = .ok store) :
    log.persist .writable id record snapshots = .ok store := by
  cases medium with
  | writable => exact hp
  | failing reason =>
    rw [persist] at hp ⊢
    cases hs : log.store with
    | none => rwa [hs] at hp
    | some _ =>
      rw [hs] at hp
      cases hp

/-- A log that has a store can only write what the medium takes. -/
theorem persist_failing {store : Store} (hs : log.store = some store) (reason : String) (id : DirectoryId)
    (record : Option Record) (snapshots : List Snapshot) :
    log.persist (.failing reason) id record snapshots = .error (.store (.unwritten reason)) := by
  rw [persist, hs]
  rfl

/-- A directory is refused on every medium, or it is taken if it can be written. -/
theorem startOn_cases (log : AuditLog) (address : String) (key : PublicKey) (snapshots : List Snapshot) :
    (∃ e, ∀ medium, log.startOn medium address key snapshots = (.error e, log)) ∨
    ∃ first rest h, snapshots = first :: rest ∧ first.epoch = 0 ∧
      log.contains first.directoryId = false ∧ History.build address key first rest = .ok h ∧
      (∀ medium e, log.persist medium first.directoryId (some ⟨address, key⟩) snapshots = .error e →
        log.startOn medium address key snapshots = (.error e, log)) ∧
      ∀ medium store, log.persist medium first.directoryId (some ⟨address, key⟩) snapshots = .ok store →
        log.startOn medium address key snapshots =
          (.ok first.directoryId, ⟨log.histories.insert first.directoryId h, store⟩) := by
  cases snapshots with
  | nil => exact .inl ⟨_, fun _ => rfl⟩
  | cons first rest =>
    simp only [startOn]
    split
    · exact .inl ⟨_, fun _ => rfl⟩
    · rename_i he
      split
      · exact .inl ⟨_, fun _ => rfl⟩
      · rename_i hc
        cases hb : History.build address key first rest with
        | error e => exact .inl ⟨_, fun _ => rfl⟩
        | ok h =>
          refine .inr ⟨first, rest, h, rfl, by simpa using he, by simpa using hc, hb, fun medium e hp => ?_,
            fun medium store hp => ?_⟩
          · simp only [hp]
          · simp only [hp]

theorem start_cases (log : AuditLog) (address : String) (key : PublicKey) (snapshots : List Snapshot) :
    (∃ e, log.start address key snapshots = (.error e, log)) ∨
    ∃ first rest h, snapshots = first :: rest ∧ first.epoch = 0 ∧
      log.contains first.directoryId = false ∧ History.build address key first rest = .ok h ∧
      log.start address key snapshots =
        (.ok first.directoryId, ⟨log.histories.insert first.directoryId h,
          log.store.map fun store => store.putDirectory first.directoryId ⟨address, key⟩ snapshots⟩) := by
  rcases log.startOn_cases address key snapshots with ⟨e, he⟩ | ⟨first, rest, h, hs, h0, hc, hb, -, hok⟩
  · exact .inl ⟨e, he .writable⟩
  · exact .inr ⟨first, rest, h, hs, h0, hc, hb, hok .writable _ (log.persist_writable _ _ _)⟩

/-- A valid chain of a directory that the log has not is taken whole. -/
theorem start_eq_of_validChain (log : AuditLog) (address : String) {key : PublicKey} {first : Snapshot}
    {rest : List Snapshot} (hn : log.histories[first.directoryId]? = none) (hv : ValidChain key (first :: rest)) :
    log.start address key (first :: rest) = (.ok first.directoryId,
      ⟨log.histories.insert first.directoryId (History.extended ⟨address, ⟨key, first⟩, [first]⟩ rest),
        log.store.map fun store => store.putDirectory first.directoryId ⟨address, key⟩ (first :: rest)⟩) := by
  have he : first.epoch = 0 := (ValidChain.cons_iff.mp hv).1.epoch
  have hc : log.contains first.directoryId = false := by
    rw [contains, Std.ExtTreeMap.contains_eq_isSome_getElem?, hn, Option.isSome_none]
  simp [start, startOn, he, hc, History.build_eq_ok_iff.mpr ⟨hv, rfl⟩, persist_writable, Store.put]

/-- A run that breaks the chain of a history is refused on every medium. -/
theorem extendOn_eq_of_check_eq_error (medium : Medium) {run : List Snapshot} {cause : ChainError} (hne : run ≠ [])
    (hh : log.histories[id]? = some h) (hc : h.tip.check run = .error cause) :
    log.extendOn medium id run = (.error (.chain cause), log) := by
  rcases h.appendWith_cases .chain (log.persist medium id none) run with ⟨e, he, ha⟩ | ⟨hr, -⟩
  · cases hc.symm.trans he
    simp [extendOn, history, hne, hh, ha, insert_eq_self hh]
  · cases hc.symm.trans (ChainTip.check_eq_ok_iff.mpr hr)

/-- A run that continues a history is taken if it can be written. -/
theorem extendOn_of_isChain (medium : Medium) {run : List Snapshot} (hne : run ≠ [])
    (hh : log.histories[id]? = some h) (hr : (h.latest :: run).IsChain (Snapshot.Follows h.key)) :
    (∀ e, log.persist medium id none run = .error e → log.extendOn medium id run = (.error e, log)) ∧
    ∀ store, log.persist medium id none run = .ok store →
      log.extendOn medium id run = (.ok run.length, ⟨log.histories.insert id (h.extended run), store⟩) := by
  rcases h.appendWith_cases .chain (log.persist medium id none) run with
    ⟨e, hc, -⟩ | ⟨-, ⟨e, hp, ha⟩ | ⟨store, hp, ha⟩⟩
  · cases hc.symm.trans (ChainTip.check_eq_ok_iff.mpr hr)
  · refine ⟨fun e' hp' => ?_, fun _ hp' => by cases hp.symm.trans hp'⟩
    cases hp.symm.trans hp'
    simp [extendOn, history, hne, hh, ha, insert_eq_self hh]
  · refine ⟨fun _ hp' => by (cases hp.symm.trans hp'), fun store' hp' => ?_⟩
    cases hp.symm.trans hp'
    simp [extendOn, history, hne, hh, ha]

/-- A run is refused on every medium, or it is taken if it can be written. -/
theorem extendOn_cases (log : AuditLog) (id : DirectoryId) (run : List Snapshot) :
    (∃ e, ∀ medium, log.extendOn medium id run = (.error e, log)) ∨
    ∃ h, run ≠ [] ∧ log.histories[id]? = some h ∧ (h.latest :: run).IsChain (Snapshot.Follows h.key) ∧
      (∀ medium e, log.persist medium id none run = .error e → log.extendOn medium id run = (.error e, log)) ∧
      ∀ medium store, log.persist medium id none run = .ok store →
        log.extendOn medium id run = (.ok run.length, ⟨log.histories.insert id (h.extended run), store⟩) := by
  by_cases hne : run = []
  · subst hne
    exact .inl ⟨_, fun _ => rfl⟩
  · cases hh : log.histories[id]? with
    | none => exact .inl ⟨.unknownDirectory id, fun _ => by simp [extendOn, history, hne, hh]⟩
    | some h =>
      rcases h.append_cases run with ⟨cause, hc, -⟩ | ⟨hr, -⟩
      · exact .inl ⟨_, fun medium => extendOn_eq_of_check_eq_error medium hne hh hc⟩
      · exact .inr ⟨h, hne, rfl, hr, fun medium => (extendOn_of_isChain medium hne hh hr).1,
          fun medium => (extendOn_of_isChain medium hne hh hr).2⟩

theorem extend_cases (log : AuditLog) (id : DirectoryId) (run : List Snapshot) :
    (∃ e, log.extend id run = (.error e, log)) ∨
    ∃ h, run ≠ [] ∧ log.histories[id]? = some h ∧
      (h.latest :: run).IsChain (Snapshot.Follows h.key) ∧
      log.extend id run = (.ok run.length, ⟨log.histories.insert id (h.extended run),
        log.store.map fun store => store.putSnapshots id run⟩) := by
  rcases log.extendOn_cases id run with ⟨e, he⟩ | ⟨h, hne, hh, hr, -, hok⟩
  · exact .inl ⟨e, he .writable⟩
  · exact .inr ⟨h, hne, hh, hr, hok .writable _ (log.persist_writable _ _ _)⟩

theorem extend_eq_of_isChain {run : List Snapshot} (hne : run ≠ []) (hh : log.histories[id]? = some h)
    (hr : (h.latest :: run).IsChain (Snapshot.Follows h.key)) :
    log.extend id run = (.ok run.length, ⟨log.histories.insert id (h.extended run),
      log.store.map fun store => store.putSnapshots id run⟩) :=
  (extendOn_of_isChain .writable hne hh hr).2 _ (log.persist_writable _ _ _)

theorem ingest_cases (log : AuditLog) (id : DirectoryId) (r : Response) :
    (∃ e, log.ingest id r = (.error e, log)) ∨
    ∃ run, r.asHistory = .ok run ∧ log.ingest id r = log.extend id run := by
  rw [ingest, ingestOn]
  cases hr : r.asHistory with
  | error e => exact .inl ⟨_, rfl⟩
  | ok run => exact .inr ⟨run, rfl, rfl⟩

/-- The reply to a question, or to a call that is refused. -/
structure Reply.TakesNothing (reply : Reply) : Prop where
  not_id : ∀ id, reply ≠ .id (.ok id)
  not_count : ∀ n, reply ≠ .count (.ok n)

theorem takesNothing_refusal (call : Call) (e : AuditError) : (call.refusal e).TakesNothing := by
  cases call <;> exact ⟨nofun, nofun⟩

/-- A call leaves the log as it is, puts in a history for an identity that had none, or
extends one. What it takes, the store takes too. -/
theorem step_cases (log : AuditLog) (call : Call) :
    ((log.step call).1.TakesNothing ∧ (log.step call).2 = log) ∨
    (∃ address key first rest h, call = .start address key (first :: rest) ∧
      log.histories[first.directoryId]? = none ∧ History.build address key first rest = .ok h ∧
      log.step call = (.id (.ok first.directoryId), ⟨log.histories.insert first.directoryId h,
        log.store.map fun store => store.putDirectory first.directoryId ⟨address, key⟩ (first :: rest)⟩)) ∨
    (∃ id h run, (call = .extend id run ∨ ∃ r, call = .ingest id r ∧ r.asHistory = .ok run) ∧
      log.histories[id]? = some h ∧ (h.latest :: run).IsChain (Snapshot.Follows h.key) ∧
      log.step call = (.count (.ok run.length), ⟨log.histories.insert id (h.extended run),
        log.store.map fun store => store.putSnapshots id run⟩)) := by
  cases call with
  | start address key snapshots =>
    rcases log.start_cases address key snapshots with ⟨e, he⟩ | ⟨first, rest, h, rfl, -, hc, hb, he⟩
    · exact .inl ⟨⟨by simp [step, he], nofun⟩, by simp only [step, he]⟩
    · have hn : log.histories[first.directoryId]? = none :=
        Std.ExtTreeMap.getElem?_eq_none_of_contains_eq_false hc
      exact .inr (.inl ⟨address, key, first, rest, h, rfl, hn, hb, by simp only [step, he]⟩)
  | extend id run =>
    rcases log.extend_cases id run with ⟨e, he⟩ | ⟨h, -, hh, hr, he⟩
    · exact .inl ⟨⟨nofun, by simp [step, he]⟩, by simp only [step, he]⟩
    · exact .inr (.inr ⟨id, h, run, .inl rfl, hh, hr, by simp only [step, he]⟩)
  | ingest id r =>
    rcases log.ingest_cases id r with ⟨e, he⟩ | ⟨run, ha, hi⟩
    · exact .inl ⟨⟨nofun, by simp [step, he]⟩, by simp only [step, he]⟩
    · rcases log.extend_cases id run with ⟨e, he⟩ | ⟨h, -, hh, hr, he⟩
      · exact .inl ⟨⟨nofun, by simp [step, hi, he]⟩, by simp only [step, hi, he]⟩
      · exact .inr (.inr ⟨id, h, run, .inr ⟨r, rfl, ha⟩, hh, hr, by simp only [step, hi, he]⟩)
  | observedRange _ _ _ => exact .inl ⟨⟨nofun, nofun⟩, rfl⟩
  | answer _ => exact .inl ⟨⟨nofun, nofun⟩, rfl⟩
  | latest _ => exact .inl ⟨⟨nofun, nofun⟩, rfl⟩
  | contains _ => exact .inl ⟨⟨nofun, nofun⟩, rfl⟩
  | directories => exact .inl ⟨⟨nofun, nofun⟩, rfl⟩

/-! ## On any medium -/

theorem stepOn_writable (log : AuditLog) (call : Call) : log.stepOn .writable call = log.step call := by
  cases call <;> rfl

theorem runOn_writable (log : AuditLog) (calls : List Call) :
    log.runOn (calls.map (⟨·, .writable⟩)) = log.run calls := by
  rw [runOn, runCalls_map]
  simp only [stepOn_writable, run]

theorem stepOn_extend_cases (log : AuditLog) (id : DirectoryId) (run : List Snapshot) :
    ((log.step (.extend id run)).1.TakesNothing ∧
      ∀ medium, log.stepOn medium (.extend id run) = log.step (.extend id run)) ∨
    ¬ (log.step (.extend id run)).1.TakesNothing ∧
      (∀ medium e, log.persist medium id none run = .error e →
        log.stepOn medium (.extend id run) = (.count (.error e), log)) ∧
      ∀ medium store, log.persist medium id none run = .ok store →
        log.stepOn medium (.extend id run) =
          ((log.step (.extend id run)).1, { (log.step (.extend id run)).2 with store }) := by
  rcases log.extendOn_cases id run with ⟨e, he⟩ | ⟨h, -, -, -, herror, hok⟩
  · exact .inl ⟨⟨nofun, by simp [step, extend, he]⟩, fun medium => by simp only [stepOn, step, extend, he]⟩
  · have htaken := hok .writable _ (log.persist_writable _ _ _)
    refine .inr ⟨fun hn => ?_, fun medium e hp => ?_, fun medium store hp => ?_⟩
    · exact hn.not_count run.length (by simp only [step, extend, htaken])
    · simp only [stepOn, herror medium e hp]
    · simp only [stepOn, step, extend, hok medium store hp, htaken]

/-- A call that takes nothing on a medium that can be written takes nothing on any. Any other
fails as the writing of its rows fails, with nothing changed, or does all that it does on a
medium that can be written. -/
theorem stepOn_cases (log : AuditLog) (call : Call) :
    ((log.step call).1.TakesNothing ∧ ∀ medium, log.stepOn medium call = log.step call) ∨
    ∃ id record snapshots, ¬ (log.step call).1.TakesNothing ∧
      (∀ medium e, log.persist medium id record snapshots = .error e →
        log.stepOn medium call = (call.refusal e, log)) ∧
      ∀ medium store, log.persist medium id record snapshots = .ok store →
        log.stepOn medium call = ((log.step call).1, { (log.step call).2 with store }) := by
  cases call with
  | start address key snapshots =>
    rcases log.startOn_cases address key snapshots with ⟨e, he⟩ | ⟨first, rest, h, rfl, -, -, -, herror, hok⟩
    · exact .inl ⟨⟨by simp [step, start, he], nofun⟩, fun medium => by simp only [stepOn, step, start, he]⟩
    · have htaken := hok .writable _ (log.persist_writable _ _ _)
      refine .inr ⟨first.directoryId, some ⟨address, key⟩, first :: rest, fun hn => ?_, fun medium e hp => ?_,
        fun medium store hp => ?_⟩
      · exact hn.not_id first.directoryId (by simp only [step, start, htaken])
      · simp only [stepOn, herror medium e hp, Call.refusal]
      · simp only [stepOn, step, start, hok medium store hp, htaken]
  | extend id run => exact (stepOn_extend_cases log id run).imp_right fun h => ⟨id, none, run, h⟩
  | ingest id r =>
    cases hr : r.asHistory with
    | error e =>
      exact .inl ⟨⟨nofun, by simp [step, ingest, ingestOn, hr]⟩,
        fun medium => by simp only [stepOn, step, ingest, ingestOn, hr]⟩
    | ok run =>
      have hmedium (medium : Medium) : log.stepOn medium (.ingest id r) = log.stepOn medium (.extend id run) := by
        simp only [stepOn, ingestOn, hr]
      have hstep : log.step (.ingest id r) = log.step (.extend id run) := by
        rw [← stepOn_writable, hmedium, stepOn_writable]
      simp only [hmedium, hstep]
      exact (stepOn_extend_cases log id run).imp_right fun h => ⟨id, none, run, h⟩
  | observedRange _ _ _ => exact .inl ⟨⟨nofun, nofun⟩, fun _ => rfl⟩
  | answer _ => exact .inl ⟨⟨nofun, nofun⟩, fun _ => rfl⟩
  | latest _ => exact .inl ⟨⟨nofun, nofun⟩, fun _ => rfl⟩
  | contains _ => exact .inl ⟨⟨nofun, nofun⟩, fun _ => rfl⟩
  | directories => exact .inl ⟨⟨nofun, nofun⟩, fun _ => rfl⟩

/-- On any medium a call does what it does on a medium that can be written, or fails with
nothing changed. -/
theorem stepOn_eq_or (log : AuditLog) (medium : Medium) (call : Call) :
    log.stepOn medium call = log.step call ∨ ∃ e, log.stepOn medium call = (call.refusal e, log) := by
  rcases log.stepOn_cases call with ⟨-, he⟩ | ⟨id, record, snapshots, -, herror, hok⟩
  · exact .inl (he medium)
  · cases hp : log.persist medium id record snapshots with
    | error e => exact .inr ⟨e, herror medium e hp⟩
    | ok store =>
      have hwritten := hok .writable store (persist_writable_of_ok hp)
      rw [hok medium store hp, ← hwritten, stepOn_writable]
      exact .inl rfl

end KeyTransparency.AuditLog
