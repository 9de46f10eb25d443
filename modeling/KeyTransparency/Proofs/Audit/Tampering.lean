import KeyTransparency.Proofs.Audit.Restart

/-!
# Stores that others have changed

The rows of a store on disk may be changed between two openings. Opening loads all rows
whose keys start with the identity, and takes them only as a valid chain. So a history that
is taken has every snapshot that can be read from such a row (`mem_of_loadSnapshots`), at
the epoch of the snapshot, and behind it what the snapshot links to.

* `intact_row_vouches_for_past`: a row that is as it was fixes the snapshots of its own and
  of all earlier epochs, whatever became of their rows, of the record and of other rows.
-/

namespace KeyTransparency

namespace Store

/-- By induction on the rows: all of them are read, in their order. -/
theorem mem_of_decodeRows {α : Type} {c : Codec α} {rows : List (Bytes × Bytes)} {as : List α}
    (h : decodeRows c rows = .ok as) {key bs : Bytes} {a : α} (hrow : (key, bs) ∈ rows) (hread : c.read bs = .ok a) :
    a ∈ as := by
  induction rows generalizing as with
  | nil => cases hrow
  | cons row rows ih =>
    obtain ⟨key', bs'⟩ := row
    rw [decodeRows] at h
    cases hb : c.read bs' with
    | error e =>
      rw [hb] at h
      cases h
    | ok b =>
      rw [hb] at h
      cases hrest : decodeRows c rows with
      | error e =>
        rw [hrest] at h
        cases h
      | ok bs'' =>
        rw [hrest] at h
        cases h
        rcases List.mem_cons.mp hrow with hrow | hrow
        · cases hrow
          rw [hread, Except.ok.injEq] at hb
          exact hb ▸ List.mem_cons_self
        · exact List.mem_cons_of_mem b (ih hrest hrow)

theorem mem_of_loadSnapshots {tables : Tables} {id : DirectoryId} {e : Epoch} {s : Snapshot} {l : List Snapshot}
    (h : (disk tables).loadSnapshots id = .ok l)
    (hrow : tables.snapshots[snapshotKey id e]? = some s.encode) : s ∈ l := by
  have hmem := Std.ExtTreeMap.mem_toList_iff_getElem?_eq_some.mpr hrow
  exact mem_of_decodeRows h (List.mem_filter.mpr ⟨hmem, isPrefixOf_snapshotKey_iff.mpr rfl⟩)
    (Codec.read_encode s.codec_delimits.roundTrips)

end Store

namespace AuditLog

variable {log reopened : AuditLog} {id : DirectoryId} {h h' : History} {store : Store}

theorem snapshots_of_restore {record : Record} {snapshots : List Snapshot}
    (hr : restore id record snapshots = .ok h) : h.snapshots = snapshots := by
  cases snapshots with
  | nil => cases hr
  | cons first rest =>
    rw [restore] at hr
    split at hr
    · cases hr
    · obtain ⟨-, rfl⟩ := History.build_eq_ok_iff.mp (mapError_eq_ok_iff.mp hr)
      rfl

/-- By induction on the records: a history that was not there before is of the snapshots
that are loaded for its identity. -/
theorem loadSnapshots_of_restoreAll {records : List (DirectoryId × Record)}
    {histories histories' : Std.ExtTreeMap DirectoryId History}
    (hr : restoreAll store histories records = .ok histories') (hh : histories'[id]? = some h) :
    histories[id]? = some h ∨ store.loadSnapshots id = .ok h.snapshots := by
  induction records generalizing histories with
  | nil =>
    cases hr
    exact .inl hh
  | cons entry records ih =>
    obtain ⟨id', record⟩ := entry
    simp only [restoreAll, bind_eq_ok_iff] at hr
    obtain ⟨snapshots, hload, restored, hrestore, hr⟩ := hr
    rcases ih hr with hi | hload'
    · rw [getElem?_insert] at hi
      split at hi
      · rename_i hid
        cases hi
        rw [← hid, snapshots_of_restore hrestore, mapError_eq_ok_iff.mp hload]
        exact .inr rfl
      · exact .inl hi
    · exact .inr hload'

theorem loadSnapshots_of_ofStore (ho : ofStore store = .ok reopened) (hh : reopened.history id = .ok h) :
    store.loadSnapshots id = .ok h.snapshots := by
  simp only [ofStore, bind_eq_ok_iff, pure_eq_ok_iff] at ho
  obtain ⟨records, -, histories, hr, rfl⟩ := ho
  rcases loadSnapshots_of_restoreAll hr (history_eq_ok_iff.mp hh) with hn | hload
  · rw [Std.ExtTreeMap.getElem?_empty] at hn
    cases hn
  · exact hload

/-- A history that is opened from a store on disk has each snapshot that a row of its
identity holds. -/
theorem at?_of_ofStore {tables : Tables} {e : Epoch} {s : Snapshot} (ho : ofStore (.disk tables) = .ok reopened)
    (hh : reopened.history id = .ok h) (hrow : tables.snapshots[snapshotKey id e]? = some s.encode) :
    h.at? s.epoch = some s := by
  have hs : h.Sound := ((Opened.ofStore ho).sound id h (history_eq_ok_iff.mp hh)).1
  exact hs.chain.getElem?_of_mem (Store.mem_of_loadSnapshots (loadSnapshots_of_ofStore ho hh) hrow)

namespace Sample

open KeyTransparency.Sample (key first left)

/-- The rows of a directory of two snapshots, of which only that of the last snapshot is as
it was written. The address is another, the first snapshot stands under the bare identity,
and a row of no directory has come in. -/
def altered : Tables where
  directories := (∅ : Table).insert first.directoryId.block.bytes (Record.codec.encode ⟨"directory:2", key⟩)
  snapshots := (((∅ : Table).insert first.directoryId.block.bytes first.encode).insert
    (snapshotKey first.directoryId 1) left.encode).insert [0] []

/-- The history that is restored from the altered rows. -/
def restored : History := ⟨"directory:2", ⟨key, left⟩, [first, left]⟩

/-- The log that is opened on the altered rows. -/
def openedAgain : AuditLog :=
  ⟨(∅ : Std.ExtTreeMap DirectoryId History).insert first.directoryId restored, some (.disk altered)⟩

theorem ofStore_altered : ofStore (.disk altered) = .ok openedAgain := by decide +kernel

theorem row_altered : altered.snapshots[snapshotKey first.directoryId 1]? = some left.encode := by decide +kernel

theorem history_openedAgain : openedAgain.history first.directoryId = .ok restored :=
  history_eq_ok_iff.mpr Std.ExtTreeMap.getElem?_insert_self

end Sample

/-- A snapshot in its row vouches for the past. Whatever was done to the rows of a log, if
the row of an epoch is as it was, a log that is opened has the directory up to that epoch
at least, and has the same snapshots up to there, or one before with the digest of the
original in place of it. -/
theorem intact_row_vouches_for_past (hl : log.Reachable) (hh : log.history id = .ok h) {e : Epoch} {s : Snapshot}
    (hs : h.at? e = some s) {altered : Tables} (hrow : altered.snapshots[snapshotKey id e]? = some s.encode)
    (ho : ofStore (.disk altered) = .ok reopened) (hh' : reopened.history id = .ok h') :
    e ≤ h'.latest.epoch ∧
      ((∀ i ≤ e, View.AgreeAt h.at? h'.at? i) ∨ ∃ i < e, View.CollideAt h.at? h'.at? i) := by
  have hsound : h.Sound := (hl.sound id h (history_eq_ok_iff.mp hh)).1
  have hsound' : h'.Sound := ((Opened.ofStore ho).sound id h' (history_eq_ok_iff.mp hh')).1
  have he : s.epoch = e := h.shows_snapshots.epoch_eq hsound.chain hs
  have hs' : h'.at? e = some s := he ▸ at?_of_ofStore ho hh' (he ▸ hrow)
  have hlt : e.toNat < h'.snapshots.length := (List.getElem?_eq_some_iff.mp hs').1
  refine ⟨?_, ?_⟩
  · rw [hsound'.length_eq] at hlt
    exact UInt64.le_iff_toNat_le.mpr (Nat.le_of_lt_succ hlt)
  · rcases View.agreeAt_or_collideAt h.shows_snapshots hsound.chain h'.shows_snapshots hsound'.chain
      hs hs' rfl with hagree | ⟨i, hi, hcollide⟩
    · exact .inl hagree
    · -- At `e` itself both hold `s`.
      have hne : i ≠ e := by
        rintro rfl
        exact View.AgreeAt.not_collideAt ⟨s, hs, hs'⟩ hcollide
      exact .inr ⟨i, UInt64.lt_of_le_of_ne hi hne, hcollide⟩

theorem intact_row_vouches_for_past_sample :
    (Sample.opened.run Sample.calls).2.Reachable ∧
    Sample.history.at? 1 = some KeyTransparency.Sample.left ∧
    ofStore (.disk Sample.altered) = .ok Sample.openedAgain ∧
    ((∀ i ≤ (1 : Epoch), View.AgreeAt Sample.history.at? Sample.restored.at? i) ∨
      ∃ i < (1 : Epoch), View.CollideAt Sample.history.at? Sample.restored.at? i) :=
  ⟨Sample.opened_reachable.run _, rfl, Sample.ofStore_altered,
    (intact_row_vouches_for_past (Sample.opened_reachable.run _) Sample.history_of_run rfl Sample.row_altered
      Sample.ofStore_altered Sample.history_openedAgain).2⟩

end AuditLog

end KeyTransparency
