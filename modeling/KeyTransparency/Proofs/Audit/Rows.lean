import KeyTransparency.Proofs.Audit.Log
import KeyTransparency.Proofs.Audit.Store

/-!
# The rows of a log

What a log holds in memory is what its store should hold: a record of every history
(`AuditLog.records`) and its snapshots by epoch (`AuditLog.views`). A log whose store holds
that and nothing else (`AuditLog.Mirrored`) is left so by every call, refused or not, and on
any medium (`Mirrored.step`, `Mirrored.stepOn`): what is put in for a history is what the
history gains.

* `Mirrored.mirrors`: row by row, the tables are those that are written from the histories.
-/

namespace KeyTransparency

/-- What is stored of a history beside its snapshots. -/
def History.record (h : History) : Record := ⟨h.address, h.key⟩

namespace AuditLog

variable {log : AuditLog} {id : DirectoryId} {h : History}

/-- The records of the histories. -/
def records (log : AuditLog) (id : DirectoryId) : Option Record := log.histories[id]?.map History.record

/-- The snapshots of the histories, by identity and epoch. -/
def views (log : AuditLog) (id : DirectoryId) : View := fun e => log.histories[id]?.bind (·.at? e)

theorem records_insert (store : Option Store) : records ⟨log.histories.insert id h, store⟩ =
    Function.update log.records id (some h.record) := by
  funext id'
  rw [Function.update_apply, records, getElem?_insert]
  by_cases hid : id' = id
  · simp [hid]
  · simp [hid, Ne.symm hid, records]

theorem views_insert (store : Option Store) : views ⟨log.histories.insert id h, store⟩ =
    Function.update log.views id h.at? := by
  funext id'
  rw [Function.update_apply]
  funext e
  rw [views, getElem?_insert]
  by_cases hid : id' = id
  · simp [hid]
  · simp [hid, Ne.symm hid, views]

/-- What is put in for a directory that had no history is the view of its history. -/
theorem put_views_of_build {address : String} {key : PublicKey} {first : Snapshot} {rest : List Snapshot}
    (hn : log.histories[id]? = none) (hb : History.build address key first rest = .ok h) :
    View.put (log.views id) (first :: rest) = h.at? := by
  obtain ⟨hv, rfl⟩ := History.build_eq_ok_iff.mp hb
  have hnone : View.Shows (log.views id) [] := fun e => by rw [views, hn]; rfl
  funext e
  rw [hnone.put hv e]
  rfl

/-- What is put in for a directory whose history goes on is what the history gains. -/
theorem put_views_of_extended {run : List Snapshot} (hl : log.Sound) (hh : log.histories[id]? = some h)
    (hr : (h.latest :: run).IsChain (Snapshot.Follows h.key)) :
    View.put (log.views id) run = (h.extended run).at? := by
  have hshows : View.Shows (log.views id) h.snapshots := fun e => by rw [views, hh]; rfl
  funext e
  rw [hshows.put ((hl id h hh).1.extended hr).chain e]
  rfl

/-- What a history gains leaves its record. -/
theorem update_records_of_extended {run : List Snapshot} (hh : log.histories[id]? = some h) :
    Function.update log.records id (some (h.extended run).record) = log.records := by
  rw [Function.update_eq_self_iff, records, hh]
  rfl

/-- The histories are sound, and the store of the log has their rows and no others. -/
structure Mirrored (log : AuditLog) : Prop where
  sound : log.Sound
  rows : ∃ store, log.store = some store ∧ store.Holds log.records log.views

/-- A log over an empty store, in memory or on disk. -/
theorem mirrored_empty {store : Store} (hs : store = .inMemory ∨ store = .disk .empty) :
    Mirrored ⟨∅, some store⟩ where
  sound id h hh := by
    rw [Std.ExtTreeMap.getElem?_empty] at hh
    cases hh
  rows := by
    have hrecords : records ⟨∅, some store⟩ = fun _ => none := by
      funext id
      rw [records, Std.ExtTreeMap.getElem?_empty]
      rfl
    have hviews : views ⟨∅, some store⟩ = fun _ _ => none := by
      funext id e
      rw [views, Std.ExtTreeMap.getElem?_empty]
      rfl
    rw [hrecords, hviews]
    rcases hs with rfl | rfl
    · exact ⟨_, rfl, Store.holds_inMemory⟩
    · exact ⟨_, rfl, Store.holds_disk_empty⟩

theorem Mirrored.step (hl : log.Mirrored) (call : Call) : (log.step call).2.Mirrored := by
  obtain ⟨store, hstore, hrows⟩ := hl.rows
  refine ⟨sound_step call hl.sound, ?_⟩
  rcases log.step_cases call with ⟨-, he⟩ | ⟨address, key, first, rest, h, rfl, hn, hb, he⟩ | ⟨id, h, run, -, hh, hr, he⟩
  · rw [he]
    exact hl.rows
  · have hrecord : h.record = ⟨address, key⟩ := by
      obtain ⟨-, rfl⟩ := History.build_eq_ok_iff.mp hb
      rfl
    rw [he, hstore]
    refine ⟨_, rfl, ?_⟩
    rw [records_insert, views_insert, hrecord, ← put_views_of_build hn hb]
    exact hrows.putDirectory _ _ _
  · rw [he, hstore]
    refine ⟨_, rfl, ?_⟩
    rw [records_insert, views_insert, update_records_of_extended hh, ← put_views_of_extended hl.sound hh hr]
    exact hrows.putSnapshots id run

theorem Mirrored.stepOn (hl : log.Mirrored) (medium : Medium) (call : Call) :
    (log.stepOn medium call).2.Mirrored := by
  rcases log.stepOn_eq_or medium call with he | ⟨e, he⟩
  · rw [he]; exact hl.step call
  · rw [he]; exact hl

theorem Mirrored.runOn (hl : log.Mirrored) (attempts : List Attempt) : (log.runOn attempts).2.Mirrored :=
  runCalls_induction (fun _ attempt hl => hl.stepOn attempt.medium attempt.call) attempts hl

end AuditLog

/-! ## Row by row -/

/-- The rows of a history: every snapshot under the identity and the position, which is
written in eight bytes, the most significant one first. -/
def History.rows (id : DirectoryId) (h : History) : List (Bytes × Bytes) :=
  h.snapshots.mapIdx fun i s => (id.block.bytes ++ Bytes.ofNatBE 8 i, s.encode)

/-- The store has one row for every history and one for every snapshot of each, and no
others. Both tables are listed in the order of their keys. -/
structure Store.Mirrors (store : Store) (histories : Std.ExtTreeMap DirectoryId History) : Prop where
  records : store.recordRows = histories.toList.map fun entry =>
    (entry.1.block.bytes, Record.codec.encode ⟨entry.2.address, entry.2.key⟩)
  snapshots : store.snapshotTable.toList = histories.toList.flatMap fun entry => entry.2.rows entry.1

/-- In a valid chain the position of a snapshot is its epoch. -/
theorem History.Sound.rows_eq {id : DirectoryId} {h : History} (hs : h.Sound) :
    h.rows id = h.snapshots.map fun s => (snapshotKey id s.epoch, s.encode) := by
  refine List.ext_getElem? fun i => ?_
  rw [rows, List.getElem?_mapIdx, List.getElem?_map]
  cases hi : h.snapshots[i]? with
  | none => rfl
  | some s => rw [Option.map_some, Option.map_some, snapshotKey, hs.chain.epoch_eq hi]

/-- Rows in strict order of their keys are determined by which rows they are. -/
theorem eq_of_mem_rows_iff {l m : List (Bytes × Bytes)} (hl : l.Pairwise fun a b => compare a.1 b.1 = .lt)
    (hm : m.Pairwise fun a b => compare a.1 b.1 = .lt) (h : ∀ row, row ∈ l ↔ row ∈ m) : l = m := by
  have irrefl : Std.Irrefl fun a b : Bytes × Bytes => compare a.1 b.1 = .lt :=
    ⟨fun a => by rw [Std.compare_self]; nofun⟩
  have antisymm : Std.Antisymm fun a b : Bytes × Bytes => compare a.1 b.1 = .lt :=
    ⟨fun a b hab hba => absurd hba (Std.OrientedCmp.not_lt_of_lt hab)⟩
  exact hl.eq_of_mem_iff hm h

namespace AuditLog

variable {log : AuditLog}

theorem ordered_ids (log : AuditLog) : log.histories.toList.Pairwise fun a b => compare a.1 b.1 = .lt :=
  Std.ExtTreeMap.ordered_keys_toList

theorem recordRows_eq {store : Store} (hrows : store.Holds log.records log.views) :
    store.recordRows = log.histories.toList.map fun entry =>
      (entry.1.block.bytes, Record.codec.encode ⟨entry.2.address, entry.2.key⟩) := by
  refine eq_of_mem_rows_iff store.recordRows_sorted ?_ fun row => ?_
  · rw [List.pairwise_map]
    exact log.ordered_ids
  · rw [hrows.records, List.mem_map]
    constructor
    · rintro ⟨id, record, hr, rfl⟩
      obtain ⟨h, hh, rfl⟩ := Option.map_eq_some_iff.mp hr
      exact ⟨(id, h), Std.ExtTreeMap.mem_toList_iff_getElem?_eq_some.mpr hh, rfl⟩
    · rintro ⟨⟨id, h⟩, hm, rfl⟩
      have hh := Std.ExtTreeMap.mem_toList_iff_getElem?_eq_some.mp hm
      exact ⟨id, h.record, by rw [records, hh]; rfl, rfl⟩

theorem Sound.of_mem_toList {entry : DirectoryId × History} (hl : log.Sound) (hm : entry ∈ log.histories.toList) :
    entry.2.Sound :=
  (hl entry.1 entry.2 (Std.ExtTreeMap.mem_toList_iff_getElem?_eq_some.mp hm)).1

/-- The keys of one history ascend with the epochs, and those of two with the identities. -/
theorem pairwise_snapshotRows (hl : log.Sound) : (log.histories.toList.flatMap fun entry =>
    entry.2.rows entry.1).Pairwise fun a b => compare a.1 b.1 = .lt := by
  rw [List.pairwise_flatMap]
  refine ⟨fun entry hm => ?_, log.ordered_ids.imp_of_mem fun ha hb hlt row hrow row' hrow' => ?_⟩
  · have hs := hl.of_mem_toList hm
    rw [hs.rows_eq, List.pairwise_map]
    exact (Snapshot.pairwise_epoch_of_isChain hs.chain.linked).imp snapshotKey_lt_iff.mpr
  · obtain ⟨s, -, rfl⟩ := List.mem_map.mp ((hl.of_mem_toList ha).rows_eq ▸ hrow)
    obtain ⟨t, -, rfl⟩ := List.mem_map.mp ((hl.of_mem_toList hb).rows_eq ▸ hrow')
    rw [compare_snapshotKey, hlt, Ordering.lt_then]

theorem snapshotRows_eq {store : Store} (hl : log.Sound) (hrows : store.Holds log.records log.views) :
    store.snapshotTable.toList = log.histories.toList.flatMap fun entry => entry.2.rows entry.1 := by
  refine eq_of_mem_rows_iff Std.ExtTreeMap.ordered_keys_toList (pairwise_snapshotRows hl) fun row => ?_
  obtain ⟨key, bs⟩ := row
  rw [Std.ExtTreeMap.mem_toList_iff_getElem?_eq_some, hrows.snapshots, List.mem_flatMap]
  constructor
  · rintro ⟨id, s, hs, rfl, rfl⟩
    obtain ⟨h, hh, hs⟩ := Option.bind_eq_some_iff.mp hs
    refine ⟨(id, h), Std.ExtTreeMap.mem_toList_iff_getElem?_eq_some.mpr hh, ?_⟩
    rw [(hl id h hh).1.rows_eq]
    exact List.mem_map_of_mem (List.mem_of_getElem? hs)
  · rintro ⟨⟨id, h⟩, hm, hrow⟩
    have hs := hl.of_mem_toList hm
    rw [hs.rows_eq, List.mem_map] at hrow
    obtain ⟨s, hmem, hrow⟩ := hrow
    cases hrow
    have hh := Std.ExtTreeMap.mem_toList_iff_getElem?_eq_some.mp hm
    exact ⟨id, s, by rw [views, hh]; exact hs.chain.getElem?_of_mem hmem, rfl, rfl⟩

theorem Mirrored.mirrors (hl : log.Mirrored) : ∃ store, log.store = some store ∧ store.Mirrors log.histories := by
  obtain ⟨store, hstore, hrows⟩ := hl.rows
  exact ⟨store, hstore, recordRows_eq hrows, snapshotRows_eq hl.sound hrows⟩

end AuditLog

end KeyTransparency
