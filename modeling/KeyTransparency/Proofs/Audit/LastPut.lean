import KeyTransparency.Proofs.Audit.Store

/-!
# What was put in last

Records and snapshots are put into a store in any order, and over one another (`Store.Put`,
`Store.putAll`). What it then has is told by the puts alone: for each directory the record that
was put in last (`Store.lastRecord`), and for each of its epochs the snapshot that was
(`Store.lastSnapshot`). Each put keeps it so (`Holds.step`), and what is held is what is read
back, whatever kind of store it is (`Holds.readsLast`).

* `store_is_map`: stores of both kinds that were empty at first are maps from directories to
  records, and from directories and epochs to snapshots.
-/

namespace KeyTransparency

/-- Of the snapshots put in, the last one of an epoch is held there. -/
theorem View.put_apply (v : View) (l : List Snapshot) (e : Epoch) :
    v.put l e = (l.filter fun s => s.epoch = e).getLast?.or (v e) := by
  induction l generalizing v with
  | nil => rfl
  | cons s l ih =>
    rw [show v.put (s :: l) = View.put (Function.update v s.epoch (some s)) l from rfl, ih,
      Function.update_apply]
    by_cases he : s.epoch = e
    · rw [if_pos he.symm, List.filter_cons_of_pos (by simpa using he), List.getLast?_cons]
      cases (l.filter fun s => s.epoch = e).getLast? <;> rfl
    · rw [if_neg (Ne.symm he), List.filter_cons_of_neg (by simpa using he)]

namespace Store

/-- What is put into a store at a time. -/
inductive Put where
  | directory (id : DirectoryId) (record : Record) (snapshots : List Snapshot)
  | snapshots (id : DirectoryId) (snapshots : List Snapshot)

namespace Put

/-- The record that is put in for the directory, if any. -/
def recordOf (id : DirectoryId) : Put → Option Record
  | directory id' record _ => if id' = id then some record else none
  | snapshots _ _ => none

/-- The snapshots that are put in for the directory. -/
def snapshotsOf (id : DirectoryId) : Put → List Snapshot
  | directory id' _ l | snapshots id' l => if id' = id then l else []

/-- The length of the address, if there is one, can be written. -/
def Writable : Put → Prop
  | directory _ record _ => (Text.utf8 record.address).length < UInt64.size
  | snapshots _ _ => True

end Put

/-- The store after one put. -/
def step (store : Store) : Put → Store
  | .directory id record l => store.putDirectory id record l
  | .snapshots id l => store.putSnapshots id l

/-- The store after puts, one after the other. -/
def putAll (store : Store) (puts : List Put) : Store := puts.foldl step store

/-- The record that was put in last for the directory. -/
def lastRecord (puts : List Put) (id : DirectoryId) : Option Record :=
  (puts.filterMap (Put.recordOf id)).getLast?

/-- The snapshot that was put in last for the directory and the epoch. -/
def lastSnapshot (puts : List Put) (id : DirectoryId) (e : Epoch) : Option Snapshot :=
  ((puts.flatMap (Put.snapshotsOf id)).filter fun s => s.epoch = e).getLast?

/-- What is read from the store is what was put in last, and all of that. -/
structure ReadsLast (store : Store) (puts : List Put) : Prop where
  record : ∀ id, store.getDirectory id = .ok (lastRecord puts id)
  listed : ∃ l, store.listDirectories = .ok l ∧ (l.map (·.1)).Nodup ∧
    ∀ id record, (id, record) ∈ l ↔ lastRecord puts id = some record
  loaded : ∀ id, ∃ l, store.loadSnapshots id = .ok l ∧ l.Pairwise (fun s t => s.epoch < t.epoch) ∧
    ∀ s, s ∈ l ↔ ∃ e, lastSnapshot puts id e = some s

/-- Nothing that is read tells the two stores apart, up to the order in which directories are
listed. -/
structure ReadsAlike (store store' : Store) : Prop where
  record : ∀ id, store.getDirectory id = store'.getDirectory id
  listed : ∃ l l', store.listDirectories = .ok l ∧ store'.listDirectories = .ok l' ∧ l.Perm l'
  loaded : ∀ id, store.loadSnapshots id = store'.loadSnapshots id

variable {store store' : Store} {puts : List Put} {id : DirectoryId} {e : Epoch} {s : Snapshot}
  {record : Record} {records : DirectoryId → Option Record} {snapshots : DirectoryId → View}

/-! ## What a put changes -/

theorem lastRecord_append (puts : List Put) (put : Put) (id : DirectoryId) :
    lastRecord (puts ++ [put]) id = (put.recordOf id).or (lastRecord puts id) := by
  rw [lastRecord, List.filterMap_append, List.getLast?_append, lastRecord]
  cases h : put.recordOf id with
  | none => simp [h]
  | some record => simp [h]

theorem lastSnapshot_append (puts : List Put) (put : Put) (id : DirectoryId) :
    lastSnapshot (puts ++ [put]) id = View.put (lastSnapshot puts id) (put.snapshotsOf id) := by
  funext e
  rw [View.put_apply, lastSnapshot, List.flatMap_append, List.filter_append, List.getLast?_append,
    lastSnapshot, List.flatMap_singleton]

theorem epoch_of_lastSnapshot (h : lastSnapshot puts id e = some s) : s.epoch = e := by
  have hm := List.mem_filter.mp (List.mem_of_getLast? h)
  simpa using hm.2

/-- A record that was put in can be read if its address can be written. -/
theorem roundTrips_of_lastRecord (hw : ∀ put ∈ puts, put.Writable) (h : lastRecord puts id = some record) :
    Record.codec.RoundTrips record := by
  obtain ⟨put, hm, hr⟩ := List.mem_filterMap.mp (List.mem_of_getLast? h)
  cases put with
  | directory id' record' l =>
    have hwritable := hw _ hm
    rw [Put.recordOf] at hr
    split at hr
    · cases hr
      exact (Record.codec_delimits hwritable).roundTrips
    · cases hr
  | snapshots id' l => cases hr

/-- The snapshots of a put change the view of its directory alone. -/
theorem update_lastSnapshot (put : Put) {id : DirectoryId} {l : List Snapshot}
    (h : ∀ id', put.snapshotsOf id' = if id = id' then l else []) :
    Function.update (lastSnapshot puts) id (View.put (lastSnapshot puts id) l) = lastSnapshot (puts ++ [put]) := by
  funext id'
  rw [lastSnapshot_append, h, Function.update_apply]
  by_cases hid : id' = id
  · rw [if_pos hid, if_pos hid.symm, hid]
  · rw [if_neg hid, if_neg (Ne.symm hid)]
    rfl

/-- A store that has what was put in last has it after one more put. -/
theorem Holds.step (h : store.Holds (lastRecord puts) (lastSnapshot puts)) (put : Put) :
    (store.step put).Holds (lastRecord (puts ++ [put])) (lastSnapshot (puts ++ [put])) := by
  cases put with
  | directory id record l =>
    have hrecords : Function.update (lastRecord puts) id (some record) =
        lastRecord (puts ++ [.directory id record l]) := by
      funext id'
      rw [lastRecord_append, Function.update_apply, Put.recordOf]
      by_cases hid : id' = id
      · rw [if_pos hid, if_pos hid.symm]
        rfl
      · rw [if_neg hid, if_neg (Ne.symm hid)]
        rfl
    rw [← update_lastSnapshot (.directory id record l) fun _ => rfl, ← hrecords]
    exact h.putDirectory id record l
  | snapshots id l =>
    have hrecords : lastRecord (puts ++ [.snapshots id l]) = lastRecord puts := by
      funext id'
      rw [lastRecord_append]
      rfl
    rw [← update_lastSnapshot (.snapshots id l) fun _ => rfl, hrecords]
    exact h.putSnapshots id l

/-- By induction on the puts, the last of them first. -/
theorem Holds.putAll (h : store.Holds (fun _ => none) fun _ _ => none) (puts : List Put) :
    (store.putAll puts).Holds (lastRecord puts) (lastSnapshot puts) := by
  induction puts using List.reverseRecOn with
  | nil => exact h
  | append_singleton puts put ih =>
    rw [Store.putAll, List.foldl_append]
    exact ih.step put

/-! ## Reading back -/

/-- The row in which the record of the directory is looked up. -/
def recordRow (store : Store) (id : DirectoryId) : Option Bytes :=
  match store with
  | memory directories _ => directories[id]?
  | disk tables => tables.directories[id.block.bytes]?

theorem getDirectory_of_recordRow_none (h : store.recordRow id = none) : store.getDirectory id = .ok none := by
  cases store <;> simp only [recordRow] at h <;> simp only [getDirectory, h]

theorem getDirectory_of_recordRow_some (h : store.recordRow id = some (Record.codec.encode record))
    (hr : Record.codec.RoundTrips record) : store.getDirectory id = .ok (some record) := by
  cases store <;> simp only [recordRow] at h <;> simp only [getDirectory, h, Codec.read_encode hr]

theorem recordRow_eq_some_iff {bs : Bytes} :
    store.recordRow id = some bs ↔ (id.block.bytes, bs) ∈ store.recordRows := by
  cases store with
  | memory directories table =>
    simp only [recordRow, recordRows, List.mem_map, Prod.exists, Prod.mk.injEq,
      Std.ExtTreeMap.mem_toList_iff_getElem?_eq_some]
    constructor
    · intro h
      exact ⟨id, bs, h, rfl, rfl⟩
    · rintro ⟨id', bs', h, hid, rfl⟩
      exact DirectoryId.eq_of_bytes hid ▸ h
  | disk tables => exact Std.ExtTreeMap.mem_toList_iff_getElem?_eq_some.symm

theorem Holds.getDirectory (h : store.Holds records snapshots)
    (hr : ∀ id record, records id = some record → Record.codec.RoundTrips record) (id : DirectoryId) :
    store.getDirectory id = .ok (records id) := by
  cases hid : records id with
  | none =>
    refine getDirectory_of_recordRow_none (Option.eq_none_iff_forall_ne_some.mpr fun bs hrow => ?_)
    obtain ⟨id', record, hrecord, heq⟩ := (h.records _).mp (recordRow_eq_some_iff.mp hrow)
    rw [← DirectoryId.eq_of_bytes (Prod.mk.inj heq).1, hid] at hrecord
    cases hrecord
  | some record =>
    have hrow := (h.records _).mpr ⟨id, record, hid, rfl⟩
    exact getDirectory_of_recordRow_some (recordRow_eq_some_iff.mpr hrow) (hr id record hid)

theorem Holds.readsLast (h : store.Holds (lastRecord puts) (lastSnapshot puts))
    (hw : ∀ put ∈ puts, put.Writable) : store.ReadsLast puts where
  record := h.getDirectory fun _ _ => roundTrips_of_lastRecord hw
  listed := by
    obtain ⟨l, hl, hsorted, hmem⟩ := h.listDirectories fun _ _ => roundTrips_of_lastRecord hw
    refine ⟨l, hl, List.pairwise_map.mpr (hsorted.imp fun hlt heq => ?_), hmem⟩
    rw [heq, Std.compare_self] at hlt
    cases hlt
  loaded id := by
    obtain ⟨l, hl, hsorted, hmem⟩ := h.loadSnapshots id
    refine ⟨l, hl, hsorted, fun s => (hmem s).trans ⟨fun hs => ⟨s.epoch, hs⟩, ?_⟩⟩
    rintro ⟨e, hs⟩
    rwa [epoch_of_lastSnapshot hs]

/-- What was put in last decides what is read. -/
theorem ReadsLast.readsAlike (h : store.ReadsLast puts) (h' : store'.ReadsLast puts) : store.ReadsAlike store' where
  record id := by rw [h.record, h'.record]
  listed := by
    obtain ⟨l, hl, hnodup, hmem⟩ := h.listed
    obtain ⟨l', hl', hnodup', hmem'⟩ := h'.listed
    refine ⟨l, l', hl, hl', ?_⟩
    refine (List.perm_ext_iff_of_nodup hnodup.of_map hnodup'.of_map).mpr fun entry => ?_
    exact (hmem _ _).trans (hmem' _ _).symm
  loaded id := by
    obtain ⟨l, hl, hsorted, hmem⟩ := h.loaded id
    obtain ⟨l', hl', hsorted', hmem'⟩ := h'.loaded id
    have : Std.Irrefl fun s t : Snapshot => s.epoch < t.epoch := ⟨fun s => UInt64.lt_irrefl s.epoch⟩
    rw [hl, hl', hsorted.eq_of_mem_iff hsorted' fun s => (hmem s).trans (hmem' s).symm]

/-! ## Two directories at once -/

namespace Sample

def one : DirectoryId := ⟨Block32.replicate 1⟩

def two : DirectoryId := ⟨Block32.replicate 2⟩

def atFirst : Record := ⟨"directory:1", ⟨Block32.replicate 3⟩⟩

/-- An unsigned snapshot: a store does not look at what it is given. -/
def unsigned (epoch : Epoch) (root : Digest) : Snapshot :=
  ⟨epoch, root, Digest.zero, ⟨Block32.replicate 0, Block32.replicate 0⟩⟩

/-- The last epoch comes first, and epoch 0 of one of the directories twice, as does its record. -/
def overwrites : List Put :=
  [.snapshots one [unsigned Epoch.last Digest.zero, unsigned 0 Digest.zero],
    .directory one atFirst [],
    .directory two atFirst [unsigned 0 ⟨Block32.replicate 4⟩],
    .directory one { atFirst with address := "directory:2" } [unsigned 0 ⟨Block32.replicate 5⟩]]

theorem overwrites_writable : ∀ put ∈ overwrites, put.Writable := by
  simp only [overwrites, List.forall_mem_cons, Put.Writable]
  exact ⟨trivial, by decide, by decide, by decide, List.forall_mem_nil _⟩

end Sample

/-- Whatever is put into a store, in memory or on disk, and in whatever order: what is read of a
directory is its last record, and of each of its epochs the last snapshot. -/
theorem store_is_map (hw : ∀ put ∈ puts, put.Writable) :
    (inMemory.putAll puts).ReadsLast puts ∧ ((disk .empty).putAll puts).ReadsLast puts ∧
      (inMemory.putAll puts).ReadsAlike ((disk .empty).putAll puts) := by
  have hmemory := (holds_inMemory.putAll puts).readsLast hw
  have hdisk := (holds_disk_empty.putAll puts).readsLast hw
  exact ⟨hmemory, hdisk, hmemory.readsAlike hdisk⟩

theorem store_is_map_sample :
    (inMemory.putAll Sample.overwrites).getDirectory Sample.one =
      .ok (some { Sample.atFirst with address := "directory:2" }) ∧
    ∃ l, (inMemory.putAll Sample.overwrites).loadSnapshots Sample.one = .ok l ∧
      ((disk .empty).putAll Sample.overwrites).loadSnapshots Sample.one = .ok l ∧
      Sample.unsigned 0 ⟨Block32.replicate 5⟩ ∈ l ∧ Sample.unsigned 0 Digest.zero ∉ l := by
  obtain ⟨hmemory, -, halike⟩ := store_is_map Sample.overwrites_writable
  obtain ⟨l, hl, -, hmem⟩ := hmemory.loaded Sample.one
  refine ⟨(hmemory.record Sample.one).trans rfl, l, hl, halike.loaded Sample.one ▸ hl, ?_, ?_⟩
  · exact (hmem _).mpr ⟨0, by decide⟩
  · intro h
    obtain ⟨e, he⟩ := (hmem _).mp h
    obtain rfl := epoch_of_lastSnapshot he
    exact absurd he (by decide)

end Store

end KeyTransparency
