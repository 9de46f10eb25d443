import KeyTransparency.Proofs.Audit.Restart

/-!
# The store mirrors the histories

What is written when a call puts something in is rows of its own directory: a record under
the identity, and snapshots under keys that start with it (`AuditLog.ChangedOnlyAt`). A call
that is refused writes nothing, one whose rows the medium does not take leaves the histories
as they are (`AuditLog.stepOn_failing`), and opening a log writes nothing.

* `store_mirrors_histories`: after every call on a log over a store that was empty, whichever
  of the calls could be written, the tables are those that are written from the histories.
-/

namespace KeyTransparency

/-- Putting in snapshots leaves the rows whose keys do not start with their identity. -/
theorem Table.getElem?_putSnapshots_of_not_prefix {table : Table} {id : DirectoryId} {key : Bytes}
    (h : ¬ id.block.bytes <+: key) (l : List Snapshot) : (table.putSnapshots id l)[key]? = table[key]? := by
  induction l generalizing table with
  | nil => rfl
  | cons s l ih =>
    have hne : snapshotKey id s.epoch ≠ key := fun he => h (he ▸ List.prefix_append _ _)
    show (Table.putSnapshots (table.insert (snapshotKey id s.epoch) s.encode) id l)[key]? = table[key]?
    rw [ih, getElem?_insert, if_neg hne]

/-- All rows are the same but those of the directory: the record under its identity, and what
has a key that starts with it. -/
structure Store.ChangedOnlyAt (id : DirectoryId) (before after : Store) : Prop where
  records : ∀ row, row.1 ≠ id.block.bytes → (row ∈ after.recordRows ↔ row ∈ before.recordRows)
  snapshots : ∀ key, ¬ id.block.bytes <+: key → after.snapshotTable[key]? = before.snapshotTable[key]?

theorem Store.changedOnlyAt_put (store : Store) (id : DirectoryId) (record : Option Record) (l : List Snapshot) :
    ChangedOnlyAt id store (store.put id record l) := by
  cases record with
  | none =>
    refine ⟨fun row _ => by rw [put, recordRows_putSnapshots], fun key hk => ?_⟩
    rw [put, snapshotTable_putSnapshots, Table.getElem?_putSnapshots_of_not_prefix hk]
  | some record =>
    refine ⟨fun row hrow => ?_, fun key hk => ?_⟩
    · have hne : row ≠ (id.block.bytes, Record.codec.encode record) := fun he => hrow (by rw [he])
      simp only [put, mem_recordRows_putDirectory, hne, false_or, ne_eq, hrow, not_false_eq_true, true_and]
    · rw [put, snapshotTable_putDirectory, Table.getElem?_putSnapshots_of_not_prefix hk]

namespace AuditLog

variable {log : AuditLog}

/-- The histories of all other directories are the same, and so are all rows of the store but
those of the directory. -/
structure ChangedOnlyAt (id : DirectoryId) (before after : AuditLog) : Prop where
  histories : ∀ id', id' ≠ id → after.histories[id']? = before.histories[id']?
  rows : ∀ store, before.store = some store →
    ∃ store', after.store = some store' ∧ Store.ChangedOnlyAt id store store'

theorem changedOnlyAt_put (log : AuditLog) (id : DirectoryId) (h : History) (record : Option Record)
    (l : List Snapshot) : ChangedOnlyAt id log (log.put id h record l) where
  histories id' hne := by rw [put, getElem?_insert, if_neg hne.symm]
  rows store hs := ⟨store.put id record l, by rw [put, hs]; rfl, store.changedOnlyAt_put id record l⟩

/-- The store mirrors the histories, and a call that fails changes nothing. What is refused is
refused before anything is written, and what is not fails with the words of the medium if it
cannot be written. A call that takes something changes the history and the rows of a directory
that it is about, and opening a log on the store changes no row. -/
structure KeepsRows (log : AuditLog) : Prop where
  mirrors : ∃ store, log.store = some store ∧ store.Mirrors log.histories
  failed : ∀ medium call, (log.stepOn medium call).1.TakesNothing → (log.stepOn medium call).2 = log
  refused : ∀ medium call, (log.stepOn .writable call).1.TakesNothing →
    log.stepOn medium call = log.stepOn .writable call
  unwritten : ∀ reason call, ¬ (log.stepOn .writable call).1.TakesNothing →
    log.stepOn (.failing reason) call = (call.refusal (.store (.unwritten reason)), log)
  taken : ∀ medium call, ¬ (log.stepOn medium call).1.TakesNothing →
    ∃ id, call.Concerns id ∧ ChangedOnlyAt id log (log.stepOn medium call).2
  opening : ∀ again, log.reopen = .ok again → again.store = log.store

theorem step_eq_of_takesNothing {call : Call} (h : (log.step call).1.TakesNothing) : (log.step call).2 = log := by
  rcases log.step_cases call with ⟨-, he⟩ | ⟨_, _, first, _, _, -, -, -, he⟩ | ⟨_, _, run, -, -, -, he⟩
  · exact he
  · rw [he] at h
    exact absurd rfl (h.not_id first.directoryId)
  · rw [he] at h
    exact absurd rfl (h.not_count run.length)

theorem stepOn_eq_of_takesNothing {medium : Medium} {call : Call} (h : (log.stepOn medium call).1.TakesNothing) :
    (log.stepOn medium call).2 = log := by
  rcases log.stepOn_eq_or medium call with he | ⟨e, he⟩
  · rw [he] at h ⊢
    exact step_eq_of_takesNothing h
  · rw [he]

/-- What a medium that can be written would not take does not reach any. -/
theorem stepOn_eq_of_refused (medium : Medium) {call : Call} (h : (log.stepOn .writable call).1.TakesNothing) :
    log.stepOn medium call = log.stepOn .writable call := by
  rw [stepOn_writable] at h
  rcases log.stepOn_cases call with ⟨-, he⟩ | ⟨_, _, _, hn, -⟩
  · rw [he, he]
  · exact absurd h hn

/-- What a medium that can be written would take is not taken where it fails. -/
theorem stepOn_failing {store : Store} (hs : log.store = some store) (reason : String) {call : Call}
    (h : ¬ (log.stepOn .writable call).1.TakesNothing) :
    log.stepOn (.failing reason) call = (call.refusal (.store (.unwritten reason)), log) := by
  rw [stepOn_writable] at h
  rcases log.stepOn_cases call with ⟨hn, -⟩ | ⟨id, record, snapshots, -, herror, -⟩
  · exact absurd hn h
  · exact herror _ _ (persist_failing hs reason id record snapshots)

theorem exists_changedOnlyAt {call : Call} (h : ¬ (log.step call).1.TakesNothing) :
    ∃ id, call.Concerns id ∧ ChangedOnlyAt id log (log.step call).2 := by
  rcases log.step_cases call with
    ⟨hn, -⟩ | ⟨address, key, first, rest, k, rfl, -, -, he⟩ | ⟨id, k, run, hcall, -, -, he⟩
  · exact absurd hn h
  · rw [he]
    exact ⟨first.directoryId, rfl, changedOnlyAt_put log first.directoryId k (some ⟨address, key⟩) (first :: rest)⟩
  · rw [he]
    refine ⟨id, ?_, changedOnlyAt_put log id (k.extended run) none run⟩
    rcases hcall with rfl | ⟨r, rfl, -⟩ <;> rfl

theorem exists_changedOnlyAt_stepOn {medium : Medium} {call : Call}
    (h : ¬ (log.stepOn medium call).1.TakesNothing) :
    ∃ id, call.Concerns id ∧ ChangedOnlyAt id log (log.stepOn medium call).2 := by
  rcases log.stepOn_eq_or medium call with he | ⟨e, he⟩
  · rw [he] at h ⊢
    exact exists_changedOnlyAt h
  · rw [he] at h
    exact absurd (takesNothing_refusal call e) h

theorem store_ofStore {store : Store} (h : ofStore store = .ok log) : log.store = some store := by
  simp only [ofStore, bind_eq_ok_iff, pure_eq_ok_iff] at h
  obtain ⟨records, -, histories, -, rfl⟩ := h
  rfl

theorem store_reopen {again : AuditLog} (h : log.reopen = .ok again) : again.store = log.store := by
  rw [reopen] at h
  cases hs : log.store with
  | none =>
    rw [hs] at h
    cases h
    rfl
  | some store =>
    rw [hs] at h
    exact store_ofStore h

theorem Mirrored.keepsRows (hl : log.Mirrored) : log.KeepsRows where
  mirrors := hl.mirrors
  failed _ _ := stepOn_eq_of_takesNothing
  refused medium _ := stepOn_eq_of_refused medium
  unwritten reason _ := by
    obtain ⟨_, hs, -⟩ := hl.rows
    exact stepOn_failing hs reason
  taken _ _ := exists_changedOnlyAt_stepOn
  opening _ := store_reopen

namespace Sample

open KeyTransparency.Sample (key first left right)

/-- Neither a directory nor its next snapshot can be written at first. A second snapshot of an
epoch is refused on any medium. -/
def attempts : List Attempt :=
  [⟨.start "directory:1" key [first], .failing "no space left"⟩, ⟨.start "directory:1" key [first], .writable⟩,
    ⟨.extend first.directoryId [left], .failing "no space left"⟩, ⟨.extend first.directoryId [left], .writable⟩,
    ⟨.extend first.directoryId [right], .failing "no space left"⟩]

end Sample

/-- A log that is opened on a store that was empty has that store, and after every run of calls,
whichever of them could be written, the store has a record for each history and a row for each
snapshot of it, and no others. What the next call changes of that is one history and its rows, and
nothing if it fails. -/
theorem store_mirrors_histories {store : Store} (hs : store = .inMemory ∨ store = .disk .empty)
    (attempts : List Attempt) :
    ∃ opened, ofStore store = .ok opened ∧ opened.store = some store ∧ (opened.runOn attempts).2.KeepsRows :=
  ⟨⟨∅, some store⟩, (stored_empty hs).reopen, rfl, ((mirrored_empty hs).runOn attempts).keepsRows⟩

theorem store_mirrors_histories_sample :
    ∃ opened, ofStore (.disk .empty) = .ok opened ∧ opened.store = some (.disk .empty) ∧
      (opened.runOn Sample.attempts).2.KeepsRows :=
  store_mirrors_histories (.inr rfl) Sample.attempts

end AuditLog

end KeyTransparency
