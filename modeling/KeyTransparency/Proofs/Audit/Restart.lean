import KeyTransparency.Proofs.Audit.Independence
import KeyTransparency.Proofs.Audit.Rows

/-!
# Logs that are dropped and opened again

A log with a store may be dropped between any two calls, and opened again on the store
(`AuditLog.Event`, `AuditLog.runEvents`). Nothing is lost by that. After every call the
store has the rows of the histories and no others (`Stored.step`), and a log opened on
such a store is the log that was dropped (`Stored.reopen`). What a log replies does not
depend on its store (`step_forgetStore`).

* `restarts_invisible`: a run with restarts has the replies of the run without them, on
  a log without a store.
-/

namespace KeyTransparency

namespace AuditLog

/-- What happens to a log that has a store. -/
inductive Event where
  | call (call : Call)
  | restart

/-- The calls among the events. -/
def callsOf : List Event → List Call
  | [] => []
  | .call call :: events => call :: callsOf events
  | .restart :: events => callsOf events

/-- The log that is opened on the store of one that is dropped. -/
def reopen (log : AuditLog) : Except AuditError AuditLog :=
  match log.store with
  | some store => ofStore store
  | none => .ok .empty

/-- The replies to the calls, and the log after all events. A log that cannot be opened
again ends the run with an error. -/
def runEvents (log : AuditLog) : List Event → Except AuditError (List Reply × AuditLog)
  | [] => .ok ([], log)
  | .call call :: events =>
    (runEvents (log.step call).2 events).map fun rest => ((log.step call).1 :: rest.1, rest.2)
  | .restart :: events => do
    let log ← log.reopen
    runEvents log events

/-- The address that the call brings, if any, has a length that can be written. -/
def Call.Writable : Call → Prop
  | .start address _ _ => (Text.utf8 address).length < UInt64.size
  | _ => True

variable {log : AuditLog} {id : DirectoryId} {h : History}

/-! ## The replies do not depend on the store -/

/-- The log without its store. -/
def forgetStore (log : AuditLog) : AuditLog := { log with store := none }

theorem step_forgetStore (log : AuditLog) (call : Call) :
    log.forgetStore.step call = ((log.step call).1, (log.step call).2.forgetStore) := by
  have hagree : AgreeOn call log log.forgetStore := fun _ _ => rfl
  obtain ⟨hreply, ⟨he, he'⟩ | ⟨id, h, record, snapshots, -, he, he'⟩⟩ := actsAlike hagree
  · exact Prod.ext hreply (by rw [he', he])
  · exact Prod.ext hreply (by rw [he', he]; rfl)

/-! ## Rows that can be read -/

/-- The store of the log has the rows of its histories and no others, and the records
among them can be read. -/
structure Stored (log : AuditLog) : Prop extends log.Mirrored where
  readable : ∀ id record, log.records id = some record → Record.codec.RoundTrips record

theorem stored_empty {store : Store} (hs : store = .inMemory ∨ store = .disk .empty) :
    Stored ⟨∅, some store⟩ where
  toMirrored := mirrored_empty hs
  readable id record hr := by
    rw [records, Std.ExtTreeMap.getElem?_empty] at hr
    cases hr

theorem Stored.step (hl : log.Stored) {call : Call} (hw : call.Writable) : (log.step call).2.Stored := by
  refine ⟨hl.toMirrored.step call, ?_⟩
  rcases log.step_cases call with ⟨-, he⟩ | ⟨address, key, first, rest, h, rfl, -, hb, he⟩ | ⟨id, h, run, -, hh, -, he⟩
  · rw [he]
    exact hl.readable
  · obtain ⟨-, rfl⟩ := History.build_eq_ok_iff.mp hb
    rw [he, records_insert]
    intro id record hid
    rw [Function.update_apply] at hid
    split at hid
    · cases hid
      exact (Record.codec_delimits (r := ⟨address, key⟩) hw).roundTrips
    · exact hl.readable id record hid
  · rw [he, records_insert, update_records_of_extended hh]
    exact hl.readable

/-! ## Opening again -/

/-- A sound history is restored from its record and its snapshots. -/
theorem restore_record (hs : h.Sound) {first : Snapshot} (h0 : h.snapshots[0]? = some first)
    (hid : first.directoryId = id) : restore id h.record h.snapshots = .ok h := by
  obtain ⟨address, ⟨key, latest⟩, snapshots⟩ := h
  cases snapshots with
  | nil => cases h0
  | cons _ rest =>
    cases h0
    have hlatest : rest.getLastD first = latest := by
      have hl := hs.latest
      rw [List.getLast?_cons, Option.some.injEq] at hl
      rw [List.getLastD_eq_getLast?]
      exact hl
    have hb : History.build address key first rest = .ok ⟨address, ⟨key, latest⟩, first :: rest⟩ :=
      History.build_eq_ok_iff.mpr ⟨hs.chain, by rw [← hlatest]; rfl⟩
    simp only [restore, hid, ne_eq, not_true_eq_false, ↓reduceIte, History.record, History.key, hb]
    rfl

/-- What a store holds of a history is its snapshots, in their order. -/
theorem loadSnapshots_eq_ok {store : Store} (hl : log.Sound) (hrows : store.Holds log.records log.views)
    (hh : log.histories[id]? = some h) : store.loadSnapshots id = .ok h.snapshots := by
  obtain ⟨l, hload, hsorted, hmem⟩ := hrows.loadSnapshots id
  have hs : h.Sound := (hl id h hh).1
  have hview (s : Snapshot) : log.views id s.epoch = some s ↔ s ∈ h.snapshots := by
    rw [views, hh, Option.bind_some]
    exact ⟨List.mem_of_getElem?, hs.chain.getElem?_of_mem⟩
  have hsorted' := Snapshot.pairwise_epoch_of_isChain hs.chain.linked
  have : Std.Irrefl fun s t : Snapshot => s.epoch < t.epoch := ⟨fun s => UInt64.lt_irrefl s.epoch⟩
  rw [hload, hsorted.eq_of_mem_iff hsorted' fun s => (hmem s).trans (hview s)]

/-- By induction on the records: each puts in the history it is the record of. -/
theorem restoreAll_eq_ok {store : Store} (hl : log.Sound) (hrows : store.Holds log.records log.views)
    {entries : List (DirectoryId × Record)} (he : ∀ id record, (id, record) ∈ entries → log.records id = some record)
    (start : Std.ExtTreeMap DirectoryId History) : ∃ histories, restoreAll store start entries = .ok histories ∧
      ∀ id, histories[id]? = if id ∈ entries.map (·.1) then log.histories[id]? else start[id]? := by
  induction entries generalizing start with
  | nil => exact ⟨start, rfl, fun id => by simp⟩
  | cons entry entries ih =>
    obtain ⟨id, record⟩ := entry
    obtain ⟨h, hh, hrecord⟩ := Option.map_eq_some_iff.mp (he id record (.head entries))
    obtain ⟨hs, first, h0, hid⟩ := hl id h hh
    obtain ⟨histories, hr, hget⟩ := ih (fun id' record' hm => he id' record' (.tail _ hm)) (start.insert id h)
    refine ⟨histories, ?_, fun id' => ?_⟩
    · rw [restoreAll, loadSnapshots_eq_ok hl hrows hh, ← hrecord]
      show (restore id h.record h.snapshots >>= fun history =>
        restoreAll store (start.insert id history) entries) = .ok histories
      rw [restore_record hs h0 hid]
      exact hr
    · rw [hget, getElem?_insert]
      by_cases hm : id' ∈ entries.map (·.1)
      · simp [hm]
      · by_cases hid' : id = id'
        · subst hid'
          simp [hh]
        · simp [hm, hid', Ne.symm hid']

/-- A log is opened again as it was. -/
theorem Stored.reopen (hl : log.Stored) : log.reopen = .ok log := by
  obtain ⟨store, hstore, hrows⟩ := hl.rows
  obtain ⟨entries, hlist, -, hmem⟩ := hrows.listDirectories hl.readable
  obtain ⟨histories, hr, hget⟩ := restoreAll_eq_ok hl.sound hrows (fun id record => (hmem id record).mp) ∅
  have he : histories = log.histories := by
    refine Std.ExtTreeMap.ext_getElem? fun id => ?_
    rw [hget]
    split
    · rfl
    · rename_i hn
      rw [Std.ExtTreeMap.getElem?_empty]
      cases hh : log.histories[id]? with
      | none => rfl
      | some h =>
        have hid : (id, h.record) ∈ entries := (hmem id h.record).mpr (by rw [records, hh]; rfl)
        exact absurd (List.mem_map_of_mem hid) hn
  rw [AuditLog.reopen, hstore]
  show ofStore store = .ok log
  simp only [ofStore, hlist, Except.mapError, bind, Except.bind, hr, pure, Except.pure, he, ← hstore]

/-! ## Runs with restarts -/

theorem runEvents_eq_ok (hl : log.Stored) {events : List Event} (hw : ∀ call ∈ callsOf events, call.Writable) :
    ∃ last, log.runEvents events = .ok ((log.forgetStore.run (callsOf events)).1, last) ∧
      last.forgetStore = (log.forgetStore.run (callsOf events)).2 := by
  induction events generalizing log with
  | nil => exact ⟨log, rfl, rfl⟩
  | cons event events ih =>
    cases event with
    | call call =>
      obtain ⟨hc, hcs⟩ := List.forall_mem_cons.mp hw
      obtain ⟨last, hr, hlast⟩ := ih (hl.step hc) hcs
      refine ⟨last, ?_, ?_⟩
      · simp only [runEvents, hr, callsOf, run, runCalls, step_forgetStore]
        rfl
      · simp only [callsOf, run, runCalls, step_forgetStore]
        exact hlast
    | restart =>
      obtain ⟨last, hr, hlast⟩ := ih hl hw
      refine ⟨last, ?_, hlast⟩
      rw [runEvents, hl.reopen]
      exact hr

namespace Sample

open KeyTransparency.Sample (key first left right)

/-- A directory is put in and continued, and a second snapshot of an epoch is refused. The
log is opened again after each of the three. -/
def events : List Event :=
  [.call (.start "directory:1" key [first]), .restart,
    .call (.extend first.directoryId [left]), .restart,
    .call (.extend first.directoryId [right]), .restart,
    .call (.answer ⟨first.directoryId, 0, 1⟩), .call .directories]

theorem writable_of_mem_events : ∀ call ∈ callsOf events, call.Writable := by
  simp only [events, callsOf, List.forall_mem_cons, List.not_mem_nil, false_imp_iff, implies_true, and_true,
    Call.Writable]
  decide

end Sample

/-- Restarts are invisible. On a log over a store that was empty, every opening in a run
with restarts succeeds, and every call has the reply that it has in the run without them
on a log without a store. -/
theorem restarts_invisible {store : Store} (hs : store = .inMemory ∨ store = .disk .empty)
    {events : List Event} (hw : ∀ call ∈ callsOf events, call.Writable) :
    ∃ opened last, ofStore store = .ok opened ∧
      opened.runEvents events = .ok ((empty.run (callsOf events)).1, last) ∧
      last.forgetStore = (empty.run (callsOf events)).2 := by
  have hl := stored_empty hs
  obtain ⟨last, hr, hlast⟩ := runEvents_eq_ok hl hw
  exact ⟨⟨∅, some store⟩, last, hl.reopen, hr, hlast⟩

theorem restarts_invisible_sample :
    (∀ call ∈ callsOf Sample.events, call.Writable) ∧
    ∃ opened last, ofStore (.disk .empty) = .ok opened ∧
      opened.runEvents Sample.events = .ok ((empty.run (callsOf Sample.events)).1, last) ∧
      last.forgetStore = (empty.run (callsOf Sample.events)).2 :=
  ⟨Sample.writable_of_mem_events, restarts_invisible (.inr rfl) Sample.writable_of_mem_events⟩

end AuditLog

end KeyTransparency
