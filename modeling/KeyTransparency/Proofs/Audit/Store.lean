import KeyTransparency.Audit.Store
import KeyTransparency.Proofs.Chain.Fork
import Mathlib.Data.List.Sort
import Mathlib.Logic.Function.Basic

/-!
# Stores as maps

A store holds records and snapshots (`Store.Holds`) if its rows are those that they are
written as, and no others. What is put in changes what is held at one identity and one
epoch (`Holds.putSnapshots`, `Holds.putDirectory`), and what is held is read back:

* `Holds.listDirectories`: all records, in the order of their identities;
* `Holds.loadSnapshots`: the snapshots of one directory, in the order of their epochs.

Both rest on the order of keys: most significant byte first, epochs are ordered as
numbers (`Bytes.compare_ofNatBE`), and behind a common identity so are keys
(`compare_snapshotKey`).
-/

namespace KeyTransparency

/-! ## The order of keys -/

namespace Bytes

theorem compare_append {a b : Bytes} (h : a.length = b.length) (x y : Bytes) :
    compare (a ++ x) (b ++ y) = (compare a b).then (compare x y) := by
  induction a generalizing b with
  | nil =>
    cases b with
    | nil => rfl
    | cons => cases h
  | cons c a ih =>
    cases b with
    | nil => cases h
    | cons d b =>
      simp only [List.cons_append, List.compare_cons_cons, ih (Nat.succ.inj h), Ordering.then_assoc]

theorem compare_singleton (a b : UInt8) : compare [a] [b] = compare a.toNat b.toNat := by
  have h : compare a b = compare a.toNat b.toNat := by
    simp only [compare, compareOfLessAndEq, UInt8.lt_iff_toNat_lt, ← UInt8.toNat_inj]
  rw [List.compare_cons_cons, h, Std.compare_self, Ordering.then_eq]

/-- The quotient decides, and where the quotients are equal the remainder. -/
theorem compare_div_then_mod (n m : Nat) :
    (compare (n / 256) (m / 256)).then (compare (n % 256) (m % 256)) = compare n m := by
  rcases Nat.lt_trichotomy (n / 256) (m / 256) with h | h | h
  · rw [Nat.compare_eq_lt.mpr h, Nat.compare_eq_lt.mpr (show n < m by omega)]
    rfl
  · rw [h, Std.compare_self, Ordering.eq_then]
    simp only [compare, compareOfLessAndEq]
    grind
  · rw [Nat.compare_eq_gt.mpr h, Nat.compare_eq_gt.mpr (show m < n by omega)]
    rfl

/-- Most significant byte first, the order of the bytes is that of the numbers. -/
theorem compare_ofNatBE {width n m : Nat} (hn : n < 1 <<< (8 * width)) (hm : m < 1 <<< (8 * width)) :
    compare (ofNatBE width n) (ofNatBE width m) = compare n m := by
  induction width generalizing n m with
  | zero =>
    have hn : n < 1 := hn
    have hm : m < 1 := hm
    rw [show n = m by omega, Std.compare_self, Std.compare_self]
  | succ width ih =>
    rw [one_shiftLeft_succ] at hn hm
    have hb (k : Nat) : ofNatBE (width + 1) k = ofNatBE width (k / 256) ++ [UInt8.ofNat k] := by
      simp [ofNatBE, ofNatLE]
    rw [hb, hb, compare_append (by simp), ih (by omega) (by omega), compare_singleton,
      UInt8.toNat_ofNat', UInt8.toNat_ofNat']
    exact compare_div_then_mod n m

end Bytes

theorem DirectoryId.eq_of_bytes {id id' : DirectoryId} (h : id.block.bytes = id'.block.bytes) :
    id = id' := by
  have hb : id.block = id'.block := Block32.ext h
  cases id
  cases hb
  rfl

variable {id id' : DirectoryId} {e f : Epoch}

theorem compare_snapshotKey :
    compare (snapshotKey id e) (snapshotKey id' f) = (compare id id').then (compare e f) := by
  have hl : id.block.bytes.length = id'.block.bytes.length := by
    rw [id.block.length_eq, id'.block.length_eq]
  have he : compare e f = compare e.toNat f.toNat := by
    simp only [compare, compareOfLessAndEq, UInt64.lt_iff_toNat_lt, ← UInt64.toNat_inj]
  rw [snapshotKey, snapshotKey, Bytes.compare_append hl, Bytes.compare_ofNatBE e.toNat_lt f.toNat_lt, he]
  rfl

theorem snapshotKey_inj : snapshotKey id e = snapshotKey id' f ↔ id = id' ∧ e = f := by
  simp only [← Std.compare_eq_iff_eq, compare_snapshotKey, Ordering.then_eq_eq]

theorem snapshotKey_lt_iff : compare (snapshotKey id e) (snapshotKey id f) = .lt ↔ e < f := by
  rw [compare_snapshotKey, Std.compare_self, Ordering.eq_then, Std.compare_eq_lt]

theorem isPrefixOf_snapshotKey_iff : id.block.bytes.isPrefixOf (snapshotKey id' e) = true ↔ id' = id := by
  have hl : id.block.bytes.length = id'.block.bytes.length := by
    rw [id.block.length_eq, id'.block.length_eq]
  rw [List.isPrefixOf_iff_prefix, snapshotKey]
  constructor
  · intro h
    have hp := List.prefix_of_prefix_length_le h (List.prefix_append _ _) (Nat.le_of_eq hl)
    exact (DirectoryId.eq_of_bytes (hp.eq_of_length hl)).symm
  · rintro rfl
    exact List.prefix_append _ _

/-! ## Rows -/

/-- What holds of a first piece of a list and of nothing behind it is found by cutting there. -/
theorem takeWhile_eq_filter {α : Type} {p : α → Bool} {l : List α}
    (h : l.Pairwise fun a b => p b = true → p a = true) : l.takeWhile p = l.filter p := by
  induction l with
  | nil => rfl
  | cons a l ih =>
    obtain ⟨ha, hl⟩ := List.pairwise_cons.mp h
    cases hp : p a with
    | true => rw [List.takeWhile_cons_of_pos hp, List.filter_cons_of_pos hp, ih hl]
    | false =>
      have hn : l.filter p = [] := List.filter_eq_nil_iff.mpr fun b hb hpb => by
        rw [ha b hb hpb] at hp
        cases hp
      rw [List.takeWhile_cons_of_neg (by simp [hp]), List.filter_cons_of_neg (by simp [hp]), hn]

theorem dropWhile_eq_filter_not {α : Type} {p : α → Bool} {l : List α}
    (h : l.Pairwise fun a b => p b = true → p a = true) : l.dropWhile p = l.filter fun a => !p a := by
  induction l with
  | nil => rfl
  | cons a l ih =>
    obtain ⟨ha, hl⟩ := List.pairwise_cons.mp h
    cases hp : p a with
    | true => rw [List.dropWhile_cons_of_pos hp, List.filter_cons_of_neg (by simp [hp]), ih hl]
    | false =>
      have hn : (a :: l).filter (fun a => !p a) = a :: l := List.filter_eq_self.mpr fun b hb => by
        rcases List.mem_cons.mp hb with rfl | hb
        · simp [hp]
        · cases hpb : p b with
          | false => rfl
          | true =>
            rw [ha b hb hpb] at hp
            cases hp
      rw [List.dropWhile_cons_of_neg (by simp [hp]), hn]

/-- Rows of which each is `f a` for some `a` with `P a` are the rows of a list of such `a`. -/
theorem exists_eq_map {α β : Type} {f : α → β} {P : α → Prop} {l : List β} (h : ∀ b ∈ l, ∃ a, P a ∧ b = f a) :
    ∃ as : List α, (∀ a ∈ as, P a) ∧ l = as.map f := by
  induction l with
  | nil => exact ⟨[], nofun, rfl⟩
  | cons b l ih =>
    obtain ⟨⟨a, ha, rfl⟩, hl⟩ := List.forall_mem_cons.mp h
    obtain ⟨as, has, rfl⟩ := ih hl
    exact ⟨a :: as, List.forall_mem_cons.mpr ⟨ha, has⟩, rfl⟩

theorem decodeRows_map_encode {α : Type} {c : Codec α} {key : α → Bytes} {as : List α}
    (h : ∀ a ∈ as, c.RoundTrips a) : decodeRows c (as.map fun a => (key a, c.encode a)) = .ok as := by
  induction as with
  | nil => rfl
  | cons a as ih =>
    obtain ⟨ha, has⟩ := List.forall_mem_cons.mp h
    rw [List.map_cons, decodeRows, Codec.read_encode ha, ih has]
    rfl

theorem Record.codec_delimits {r : Record} (h : (Text.utf8 r.address).length < UInt64.size) :
    Record.codec.Delimits r := by
  refine .convert (.pair (.text h) ?_) rfl
  exact .convert (.block32 r.key.block) rfl

namespace Store

theorem idOfKey_bytes (id : DirectoryId) : idOfKey id.block.bytes = .ok id := by
  have ht : id.block.bytes.take 32 = id.block.bytes := by
    rw [← id.block.length_eq, List.take_length]
  rw [idOfKey, ht, Block32.ofBytes?_eq_some_iff.mpr rfl]

theorem decodeRecords_map_encode {entries : List (DirectoryId × Record)}
    (h : ∀ entry ∈ entries, Record.codec.RoundTrips entry.2) :
    decodeRecords (entries.map fun entry => (entry.1.block.bytes, Record.codec.encode entry.2)) =
      .ok entries := by
  induction entries with
  | nil => rfl
  | cons entry entries ih =>
    obtain ⟨he, hes⟩ := List.forall_mem_cons.mp h
    rw [List.map_cons, decodeRecords, idOfKey_bytes]
    simp only [bind, Except.bind, Codec.read_encode he, ih hes, pure, Except.pure]

/-! ## What a store holds -/

/-- The table of the snapshots. -/
def snapshotTable : Store → Table
  | memory _ table => table
  | disk tables => tables.snapshots

/-- The rows of the records, in the order of their keys. -/
def recordRows : Store → List (Bytes × Bytes)
  | memory directories _ => directories.toList.map fun row => (row.1.block.bytes, row.2)
  | disk tables => tables.directories.toList

/-- The rows are those of the given records and snapshots, and no others. -/
structure Holds (store : Store) (records : DirectoryId → Option Record) (snapshots : DirectoryId → View) :
    Prop where
  records : ∀ row, row ∈ store.recordRows ↔
    ∃ id record, records id = some record ∧ row = (id.block.bytes, Record.codec.encode record)
  snapshots : ∀ key bs, store.snapshotTable[key]? = some bs ↔
    ∃ id s, snapshots id s.epoch = some s ∧ key = snapshotKey id s.epoch ∧ bs = s.encode

variable {store : Store} {records : DirectoryId → Option Record} {snapshots : DirectoryId → View}

theorem holds_inMemory : inMemory.Holds (fun _ => none) fun _ _ => none where
  records row := by simp [inMemory, recordRows]
  snapshots key bs := by simp [inMemory, snapshotTable]

theorem holds_disk_empty : (disk .empty).Holds (fun _ => none) fun _ _ => none where
  records := by
    rintro ⟨key, bs⟩
    simp [Tables.empty, recordRows]
  snapshots key bs := by simp [Tables.empty, snapshotTable]

theorem snapshotTable_putSnapshots (store : Store) (id : DirectoryId) (l : List Snapshot) :
    (store.putSnapshots id l).snapshotTable = store.snapshotTable.putSnapshots id l := by
  cases store <;> rfl

theorem recordRows_putSnapshots (store : Store) (id : DirectoryId) (l : List Snapshot) :
    (store.putSnapshots id l).recordRows = store.recordRows := by
  cases store <;> rfl

theorem snapshotTable_putDirectory (store : Store) (id : DirectoryId) (record : Record) (l : List Snapshot) :
    (store.putDirectory id record l).snapshotTable = store.snapshotTable.putSnapshots id l := by
  cases store <;> rfl

/-- A record put in takes the place of the one of the identity. -/
theorem mem_recordRows_putDirectory (store : Store) (id : DirectoryId) (record : Record) (l : List Snapshot)
    (row : Bytes × Bytes) : row ∈ (store.putDirectory id record l).recordRows ↔
      row = (id.block.bytes, Record.codec.encode record) ∨ row.1 ≠ id.block.bytes ∧ row ∈ store.recordRows := by
  obtain ⟨key, bs⟩ := row
  cases store with
  | memory directories table =>
    simp only [putDirectory, recordRows, List.mem_map, Prod.exists, Prod.mk.injEq,
      Std.ExtTreeMap.mem_toList_iff_getElem?_eq_some, getElem?_insert]
    constructor
    · rintro ⟨id', bs', h, rfl, rfl⟩
      split at h
      · rename_i he
        cases h
        exact .inl ⟨by rw [he], rfl⟩
      · rename_i hne
        exact .inr ⟨fun hb => hne (DirectoryId.eq_of_bytes hb.symm), id', bs', h, rfl, rfl⟩
    · rintro (⟨rfl, rfl⟩ | ⟨hne, id', bs', h, rfl, rfl⟩)
      · exact ⟨id, _, by rw [if_pos rfl], rfl, rfl⟩
      · exact ⟨id', _, by rw [if_neg fun he => hne (by rw [he]), h], rfl, rfl⟩
  | disk tables =>
    simp only [putDirectory, recordRows, Prod.mk.injEq, Std.ExtTreeMap.mem_toList_iff_getElem?_eq_some,
      getElem?_insert]
    split
    · rename_i he
      subst he
      simp [eq_comm]
    · rename_i hne
      simp [Ne.symm hne]

/-! ## Putting in -/

/-- A table of snapshots with one more holds that one at its identity and epoch. -/
theorem getElem?_insert_snapshot {table : Table} {v : DirectoryId → View}
    (h : ∀ key bs, table[key]? = some bs ↔
      ∃ id s, v id s.epoch = some s ∧ key = snapshotKey id s.epoch ∧ bs = s.encode)
    (id : DirectoryId) (s : Snapshot) (key bs : Bytes) :
    (table.insert (snapshotKey id s.epoch) s.encode)[key]? = some bs ↔
      ∃ id' t, Function.update v id (Function.update (v id) s.epoch (some s)) id' t.epoch = some t ∧
        key = snapshotKey id' t.epoch ∧ bs = t.encode := by
  rw [getElem?_insert]
  split
  · rename_i hk
    subst hk
    constructor
    · intro hb
      cases hb
      exact ⟨id, s, by rw [Function.update_self, Function.update_self], rfl, rfl⟩
    · rintro ⟨id', t, ht, hk, rfl⟩
      obtain ⟨rfl, he⟩ := snapshotKey_inj.mp hk
      rw [Function.update_self, ← he, Function.update_self] at ht
      cases ht
      rfl
  · rename_i hk
    have other {id' : DirectoryId} {t : Snapshot} (hkey : key = snapshotKey id' t.epoch) :
        Function.update v id (Function.update (v id) s.epoch (some s)) id' t.epoch = v id' t.epoch := by
      subst hkey
      rw [snapshotKey_inj, not_and] at hk
      by_cases hid : id' = id
      · subst hid
        rw [Function.update_self, Function.update_of_ne (Ne.symm (hk rfl))]
      · rw [Function.update_of_ne hid]
    rw [h]
    refine exists_congr fun id' => exists_congr fun t => and_congr_left fun hkt => ?_
    rw [other hkt.1]

/-- By induction on the snapshots put in. -/
theorem getElem?_putSnapshots {table : Table} {v : DirectoryId → View}
    (h : ∀ key bs, table[key]? = some bs ↔
      ∃ id s, v id s.epoch = some s ∧ key = snapshotKey id s.epoch ∧ bs = s.encode)
    (id : DirectoryId) (l : List Snapshot) (key bs : Bytes) :
    (table.putSnapshots id l)[key]? = some bs ↔
      ∃ id' t, Function.update v id (View.put (v id) l) id' t.epoch = some t ∧
        key = snapshotKey id' t.epoch ∧ bs = t.encode := by
  induction l generalizing table v with
  | nil =>
    rw [show View.put (v id) [] = v id from rfl, Function.update_eq_self]
    exact h key bs
  | cons s l ih =>
    refine (ih (getElem?_insert_snapshot h id s)).trans ?_
    rw [Function.update_idem, Function.update_self]
    exact Iff.rfl

theorem listDirectories_eq (store : Store) : store.listDirectories = decodeRecords store.recordRows := by
  cases store <;> rfl

theorem recordRows_sorted (store : Store) : store.recordRows.Pairwise fun a b => compare a.1 b.1 = .lt := by
  cases store with
  | memory directories table =>
    rw [recordRows, List.pairwise_map]
    exact directories.ordered_keys_toList
  | disk tables => exact Std.ExtTreeMap.ordered_keys_toList

namespace Holds

theorem putSnapshots (h : store.Holds records snapshots) (id : DirectoryId) (l : List Snapshot) :
    (store.putSnapshots id l).Holds records (Function.update snapshots id (View.put (snapshots id) l)) where
  records row := by rw [recordRows_putSnapshots, h.records]
  snapshots := by
    rw [snapshotTable_putSnapshots]
    exact getElem?_putSnapshots h.snapshots id l

theorem putDirectory (h : store.Holds records snapshots) (id : DirectoryId) (record : Record)
    (l : List Snapshot) : (store.putDirectory id record l).Holds (Function.update records id (some record))
      (Function.update snapshots id (View.put (snapshots id) l)) where
  records row := by
    rw [mem_recordRows_putDirectory, h.records]
    constructor
    · rintro (rfl | ⟨hne, id', record', hr, rfl⟩)
      · exact ⟨id, record, Function.update_self .., rfl⟩
      · exact ⟨id', record', by rwa [Function.update_of_ne fun he => hne (by rw [he])], rfl⟩
    · rintro ⟨id', record', hr, rfl⟩
      by_cases hid : id' = id
      · subst hid
        rw [Function.update_self] at hr
        cases hr
        exact .inl rfl
      · rw [Function.update_of_ne hid] at hr
        exact .inr ⟨fun hb => hid (DirectoryId.eq_of_bytes hb), id', record', hr, rfl⟩
  snapshots := by
    rw [snapshotTable_putDirectory]
    exact getElem?_putSnapshots h.snapshots id l

/-! ## Reading back -/

theorem key_of_mem {row : Bytes × Bytes} (h : store.Holds records snapshots)
    (hrow : row ∈ store.snapshotTable.toList) : ∃ id s, snapshots id s.epoch = some s ∧
      row = (snapshotKey id s.epoch, s.encode) := by
  obtain ⟨key, bs⟩ := row
  obtain ⟨id, s, hs, rfl, rfl⟩ := (h.snapshots key bs).mp (Std.ExtTreeMap.mem_toList_iff_getElem?_eq_some.mp hrow)
  exact ⟨id, s, hs, rfl⟩

/-- Keys that are not below those of an identity, and come before one of its keys, are
keys of the identity. -/
theorem isPrefixOf_of_between {id' id'' : DirectoryId} {e f : Epoch}
    (hlow : compare (snapshotKey id' e) (snapshotKey id 0) ≠ .lt)
    (hlt : compare (snapshotKey id' e) (snapshotKey id'' f) = .lt)
    (hp : id.block.bytes.isPrefixOf (snapshotKey id'' f) = true) :
    id.block.bytes.isPrefixOf (snapshotKey id' e) = true := by
  rw [isPrefixOf_snapshotKey_iff] at hp ⊢
  subst hp
  rw [compare_snapshotKey] at hlow hlt
  cases hc : compare id' id'' with
  | lt => rw [hc] at hlow; exact absurd rfl hlow
  | eq => exact Std.compare_eq_iff_eq.mp hc
  | gt => rw [hc] at hlt; cases hlt

/-- Both kinds of stores find the rows whose keys start with the identity: in memory they
are one piece of the rows, because keys are ordered by their identities first. -/
theorem loadSnapshots_eq (h : store.Holds records snapshots) (id : DirectoryId) :
    store.loadSnapshots id = decodeRows Snapshot.codec
      (store.snapshotTable.toList.filter fun row => id.block.bytes.isPrefixOf row.1) := by
  cases store with
  | disk tables => rfl
  | memory directories table =>
    have hsorted : table.toList.Pairwise fun a b => compare a.1 b.1 = .lt := Std.ExtTreeMap.ordered_keys_toList
    show decodeRows Snapshot.codec ((table.toList.dropWhile fun row =>
      compare row.1 (snapshotKey id 0) == .lt).takeWhile fun row => id.block.bytes.isPrefixOf row.1) = _
    rw [dropWhile_eq_filter_not, takeWhile_eq_filter, List.filter_filter]
    · congr 1
      refine List.filter_congr fun row hrow => ?_
      obtain ⟨id', s, -, rfl⟩ := h.key_of_mem hrow
      cases hp : id.block.bytes.isPrefixOf (snapshotKey id' s.epoch) with
      | false => rfl
      | true =>
        obtain rfl := isPrefixOf_snapshotKey_iff.mp hp
        have h0 : compare (snapshotKey id' s.epoch) (snapshotKey id' 0) ≠ .lt :=
          mt snapshotKey_lt_iff.mp UInt64.not_lt_zero
        simp [h0]
    · refine (hsorted.filter _).imp_of_mem ?_
      intro a b ha hb hab hp
      obtain ⟨ha, hlow⟩ := List.mem_filter.mp ha
      obtain ⟨id', s, -, rfl⟩ := h.key_of_mem ha
      obtain ⟨id'', t, -, rfl⟩ := h.key_of_mem (List.mem_filter.mp hb).1
      exact isPrefixOf_of_between (by simpa using hlow) hab hp
    · refine hsorted.imp fun hab hb => ?_
      rw [beq_iff_eq] at hb ⊢
      exact Std.TransCmp.lt_trans hab hb

theorem loadSnapshots (h : store.Holds records snapshots) (id : DirectoryId) :
    ∃ l, store.loadSnapshots id = .ok l ∧ l.Pairwise (fun s t => s.epoch < t.epoch) ∧
      ∀ s, s ∈ l ↔ snapshots id s.epoch = some s := by
  have hsorted : store.snapshotTable.toList.Pairwise fun a b => compare a.1 b.1 = .lt :=
    Std.ExtTreeMap.ordered_keys_toList
  obtain ⟨l, hl, hrows⟩ : ∃ l : List Snapshot, (∀ s ∈ l, snapshots id s.epoch = some s) ∧
      (store.snapshotTable.toList.filter fun row => id.block.bytes.isPrefixOf row.1) =
        l.map fun s => (snapshotKey id s.epoch, s.encode) := by
    refine exists_eq_map fun row hrow => ?_
    obtain ⟨hrow, hp⟩ := List.mem_filter.mp hrow
    obtain ⟨id', s, hs, rfl⟩ := h.key_of_mem hrow
    obtain rfl := isPrefixOf_snapshotKey_iff.mp hp
    exact ⟨s, hs, rfl⟩
  refine ⟨l, ?_, ?_, fun s => ⟨hl s, fun hs => ?_⟩⟩
  · rw [h.loadSnapshots_eq, hrows]
    exact decodeRows_map_encode fun s _ => s.codec_delimits.roundTrips
  · have hlt := hsorted.filter fun row => id.block.bytes.isPrefixOf row.1
    rw [hrows, List.pairwise_map] at hlt
    exact hlt.imp snapshotKey_lt_iff.mp
  · have hrow : (snapshotKey id s.epoch, s.encode) ∈ store.snapshotTable.toList :=
      Std.ExtTreeMap.mem_toList_iff_getElem?_eq_some.mpr ((h.snapshots _ _).mpr ⟨id, s, hs, rfl, rfl⟩)
    have hmem : (snapshotKey id s.epoch, s.encode) ∈
        store.snapshotTable.toList.filter fun row => id.block.bytes.isPrefixOf row.1 :=
      List.mem_filter.mpr ⟨hrow, isPrefixOf_snapshotKey_iff.mpr rfl⟩
    rw [hrows] at hmem
    obtain ⟨t, ht, he⟩ := List.mem_map.mp hmem
    exact Snapshot.encode_inj (Prod.mk.inj he).2 ▸ ht

theorem listDirectories (h : store.Holds records snapshots)
    (hr : ∀ id record, records id = some record → Record.codec.RoundTrips record) :
    ∃ l, store.listDirectories = .ok l ∧ l.Pairwise (fun a b => compare a.1 b.1 = .lt) ∧
      ∀ id record, (id, record) ∈ l ↔ records id = some record := by
  obtain ⟨l, hl, hrows⟩ : ∃ l : List (DirectoryId × Record), (∀ entry ∈ l, records entry.1 = some entry.2) ∧
      store.recordRows = l.map fun entry => (entry.1.block.bytes, Record.codec.encode entry.2) := by
    refine exists_eq_map fun row hrow => ?_
    obtain ⟨id, record, hs, rfl⟩ := (h.records row).mp hrow
    exact ⟨(id, record), hs, rfl⟩
  refine ⟨l, ?_, ?_, fun id record => ⟨hl (id, record), fun hs => ?_⟩⟩
  · rw [listDirectories_eq, hrows]
    exact decodeRecords_map_encode fun entry he => hr _ _ (hl entry he)
  · have hlt := recordRows_sorted store
    rw [hrows, List.pairwise_map] at hlt
    exact hlt
  · have hmem := (h.records _).mpr ⟨id, record, hs, rfl⟩
    rw [hrows] at hmem
    obtain ⟨entry, he, heq⟩ := List.mem_map.mp hmem
    obtain rfl := DirectoryId.eq_of_bytes (Prod.mk.inj heq).1
    have hrecord := hl entry he
    rw [hs, Option.some.injEq] at hrecord
    exact hrecord ▸ he

end Holds

end Store

end KeyTransparency
