import KeyTransparency.Proofs.Audit.Log
import KeyTransparency.Proofs.Audit.Store

/-!
# Calls about different directories

A call concerns the directories that it names, and a new one the identity that its first
snapshot gives it (`AuditLog.Call.Concerns`). Of all histories it reads those that it concerns,
and what it takes is put in for one of these (`AuditLog.actsAlike`). The rows of the store are
not read, and the keys of different directories differ, so that calls that concern no
directory in common commute (`AuditLog.commute_of_disjoint`).

* `directories_independent`: in whatever turns the calls of two sequences are made that
  concern no directory in common, none of them can tell that there is another sequence.
-/

namespace KeyTransparency

/-! ## Rows of different directories -/

namespace Table

variable {table : Table} {id id' : DirectoryId}

theorem putSnapshots_insert {key bs : Bytes} {l : List Snapshot} (h : ∀ s ∈ l, key ≠ snapshotKey id s.epoch) :
    Table.putSnapshots (table.insert key bs) id l = (table.putSnapshots id l).insert key bs := by
  induction l generalizing table with
  | nil => rfl
  | cons s l ih =>
    obtain ⟨hs, hl⟩ := List.forall_mem_cons.mp h
    show Table.putSnapshots ((table.insert key bs).insert (snapshotKey id s.epoch) s.encode) id l =
      (Table.putSnapshots (table.insert (snapshotKey id s.epoch) s.encode) id l).insert key bs
    rw [insert_comm hs, ih hl]

/-- By induction on the snapshots that are put in last: none of their keys is one of the
other directory. -/
theorem putSnapshots_comm (hne : id ≠ id') (l m : List Snapshot) :
    (table.putSnapshots id l).putSnapshots id' m = (table.putSnapshots id' m).putSnapshots id l := by
  induction m generalizing table with
  | nil => rfl
  | cons s m ih =>
    have hkeys : ∀ t ∈ l, snapshotKey id' s.epoch ≠ snapshotKey id t.epoch := fun t _ hk =>
      hne (snapshotKey_inj.mp hk).1.symm
    show Table.putSnapshots ((table.putSnapshots id l).insert (snapshotKey id' s.epoch) s.encode) id' m =
      (Table.putSnapshots (table.insert (snapshotKey id' s.epoch) s.encode) id' m).putSnapshots id l
    rw [← putSnapshots_insert hkeys, ih]

end Table

namespace Store

theorem put_comm {store : Store} {id id' : DirectoryId} (hne : id ≠ id') (record record' : Option Record)
    (l m : List Snapshot) :
    (store.put id record l).put id' record' m = (store.put id' record' m).put id record l := by
  have hkeys : id'.block.bytes ≠ id.block.bytes := fun he => hne (DirectoryId.eq_of_bytes he.symm)
  cases store <;> cases record <;> cases record' <;>
    simp only [put, putDirectory, putSnapshots, Table.putSnapshots_comm hne, insert_comm hne.symm,
      insert_comm hkeys]

end Store

namespace AuditLog

/-- The directory is one that the call is about: one that it names, or the one that starts
with its first snapshot. A list of the directories is about all of them. -/
def Call.Concerns (id : DirectoryId) : Call → Prop
  | .start _ _ snapshots => snapshots.head?.map Snapshot.directoryId = some id
  | .extend id' _ | .ingest id' _ | .observedRange id' _ _ | .latest id' | .contains id' => id' = id
  | .answer request => request.directory = id
  | .directories => True

/-- The log with a history and its rows put in: snapshots, and a record if there is one. -/
def put (log : AuditLog) (id : DirectoryId) (h : History) (record : Option Record) (snapshots : List Snapshot) :
    AuditLog :=
  ⟨log.histories.insert id h, log.store.map fun store => store.put id record snapshots⟩

variable {log log' : AuditLog} {id : DirectoryId} {call : Call}

/-- Both logs have the same history of every directory that the call concerns. -/
def AgreeOn (call : Call) (log log' : AuditLog) : Prop :=
  ∀ id, call.Concerns id → log'.histories[id]? = log.histories[id]?

/-- The call is answered alike on both logs, and puts the same into both of them. -/
def ActsAlike (call : Call) (log log' : AuditLog) : Prop :=
  (log'.step call).1 = (log.step call).1 ∧
    ((log.step call).2 = log ∧ (log'.step call).2 = log' ∨
      ∃ id h record snapshots, call.Concerns id ∧ (log.step call).2 = log.put id h record snapshots ∧
        (log'.step call).2 = log'.put id h record snapshots)

theorem history_congr (h : log'.histories[id]? = log.histories[id]?) : log'.history id = log.history id := by
  rw [history, history, h]

theorem start_actsAlike {address : String} {key : PublicKey} {snapshots : List Snapshot}
    (h : AgreeOn (.start address key snapshots) log log') : ActsAlike (.start address key snapshots) log log' := by
  cases snapshots with
  | nil => exact ⟨rfl, .inl ⟨rfl, rfl⟩⟩
  | cons first rest =>
    have hc : log'.contains first.directoryId = log.contains first.directoryId := by
      rw [contains, contains, Std.ExtTreeMap.contains_eq_isSome_getElem?, h _ rfl,
        ← Std.ExtTreeMap.contains_eq_isSome_getElem?]
    simp only [ActsAlike, step, start, startOn, hc, persist_writable]
    split
    · exact ⟨rfl, .inl ⟨rfl, rfl⟩⟩
    · split
      · exact ⟨rfl, .inl ⟨rfl, rfl⟩⟩
      · cases hb : History.build address key first rest with
        | error e => exact ⟨rfl, .inl ⟨rfl, rfl⟩⟩
        | ok h => exact ⟨rfl, .inr ⟨first.directoryId, h, some ⟨address, key⟩, first :: rest, rfl, rfl, rfl⟩⟩

theorem extend_actsAlike {run : List Snapshot} (h : AgreeOn (.extend id run) log log') :
    ActsAlike (.extend id run) log log' := by
  have hid : log'.histories[id]? = log.histories[id]? := h id rfl
  simp only [ActsAlike, step]
  by_cases hne : run = []
  · subst hne
    exact ⟨rfl, .inl ⟨rfl, rfl⟩⟩
  · cases hh : log.histories[id]? with
    | none =>
      have hunknown (l : AuditLog) (hl : l.histories[id]? = none) :
          l.extend id run = (.error (.unknownDirectory id), l) := by
        simp [extend, extendOn, history, hne, hl]
      rw [hunknown log hh, hunknown log' (hid.trans hh)]
      exact ⟨rfl, .inl ⟨rfl, rfl⟩⟩
    | some k =>
      rcases k.append_cases run with ⟨cause, hc, -⟩ | ⟨hr, -⟩
      · rw [extend, extend, extendOn_eq_of_check_eq_error .writable hne hh hc,
          extendOn_eq_of_check_eq_error .writable hne (hid.trans hh) hc]
        exact ⟨rfl, .inl ⟨rfl, rfl⟩⟩
      · rw [extend_eq_of_isChain hne hh hr, extend_eq_of_isChain hne (hid.trans hh) hr]
        exact ⟨rfl, .inr ⟨id, k.extended run, none, run, rfl, rfl, rfl⟩⟩

theorem ingest_actsAlike {r : Response} (h : AgreeOn (.ingest id r) log log') :
    ActsAlike (.ingest id r) log log' := by
  simp only [ActsAlike, step, ingest, ingestOn]
  cases hr : r.asHistory with
  | error e => exact ⟨rfl, .inl ⟨rfl, rfl⟩⟩
  | ok run =>
    have he : AgreeOn (.extend id run) log log' := h
    exact extend_actsAlike he

/-- A call reads and changes what it concerns, and nothing else. -/
theorem actsAlike (h : AgreeOn call log log') : ActsAlike call log log' := by
  have unchanged (hr : (log'.step call).1 = (log.step call).1) (he : (log.step call).2 = log)
    (he' : (log'.step call).2 = log') : ActsAlike call log log' := ⟨hr, .inl ⟨he, he'⟩⟩
  cases call with
  | start address key snapshots => exact start_actsAlike h
  | extend id run => exact extend_actsAlike h
  | ingest id r => exact ingest_actsAlike h
  | observedRange id first last =>
    refine unchanged ?_ rfl rfl
    simp only [step, observedRange, history_congr (h id rfl)]
  | answer request =>
    refine unchanged ?_ rfl rfl
    simp only [step, answer, observedRange, history_congr (h _ rfl)]
  | latest id =>
    refine unchanged ?_ rfl rfl
    simp only [step, latest, history_congr (h id rfl)]
  | contains id =>
    refine unchanged ?_ rfl rfl
    simp only [step, contains, Std.ExtTreeMap.contains_eq_isSome_getElem?, h id rfl]
  | directories =>
    have he : log'.histories = log.histories := Std.ExtTreeMap.ext_getElem? fun id => h id trivial
    refine unchanged ?_ rfl rfl
    simp only [step, directories, he]

theorem put_comm {id id' : DirectoryId} (hne : id ≠ id') (h h' : History) (record record' : Option Record)
    (l m : List Snapshot) :
    (log.put id h record l).put id' h' record' m = (log.put id' h' record' m).put id h record l := by
  rw [put, put, put, put, insert_comm hne.symm]
  cases log.store with
  | none => rfl
  | some store => rw [Option.map_some, Option.map_some, Option.map_some, Option.map_some, Store.put_comm hne]

/-- A call leaves the histories that it does not concern. -/
theorem histories_step_of_not_concerns (log : AuditLog) (h : ¬ call.Concerns id) :
    (log.step call).2.histories[id]? = log.histories[id]? := by
  have hself : AgreeOn call log log := fun _ _ => rfl
  rcases (actsAlike hself).2 with ⟨he, -⟩ | ⟨id', h', record, snapshots, hc, he, -⟩
  · rw [he]
  · rw [he, put, getElem?_insert, if_neg]
    rintro rfl
    exact h hc

/-- Calls that concern no directory in common commute. -/
theorem commute_of_disjoint {a b : Call} (h : ∀ id, a.Concerns id → ¬ b.Concerns id) : Commute step a b := by
  have ha (log : AuditLog) : ActsAlike a log (log.step b).2 :=
    actsAlike fun id hid => histories_step_of_not_concerns log (h id hid)
  have hb (log : AuditLog) : ActsAlike b log (log.step a).2 :=
    actsAlike fun id hid => histories_step_of_not_concerns log fun hid' => h id hid' hid
  refine ⟨fun log => (ha log).1, fun log => (hb log).1, fun log => ?_⟩
  rcases (ha log).2 with ⟨hea, hea'⟩ | ⟨id, k, record, l, hid, hea, hea'⟩
  · rw [hea', hea]
  · rcases (hb log).2 with ⟨heb, heb'⟩ | ⟨id', k', record', m, hid', heb, heb'⟩
    · rw [heb', heb]
    · have hne : id' ≠ id := fun he => h id hid (he ▸ hid')
      rw [hea', heb', hea, heb, put_comm hne]

namespace Sample

open KeyTransparency.Sample (key first left right)

/-- The first snapshot of another directory under the same key. -/
def other : Snapshot :=
  ⟨0, ⟨Block32.replicate 2⟩, Digest.zero,
    ⟨Block32.ofNatLE 0xcbd591fe9f992a020dc4755762e38e0d5fc088a04258ea5d139e1d8066e16a24,
      Block32.ofNatLE 0xe2bcba3d2af180b9e7c7b818d3342e98fa9d70daaf8c5c018ec4dec4d54f9d2⟩⟩

theorem directoryId_ne : first.directoryId ≠ other.directoryId := by decide +kernel

/-- A directory is continued, and a second snapshot of an epoch is refused. -/
def callsOfOne : List Call :=
  [.extend first.directoryId [left], .extend first.directoryId [right], .latest first.directoryId]

/-- The other directory is put in, a snapshot that does not follow is refused, and it is put in again. -/
def callsOfOther : List Call :=
  [.start "directory:2" key [other], .extend other.directoryId [left], .start "directory:2" key [other]]

theorem not_concerns_of_mem : ∀ a ∈ callsOfOne, ∀ b ∈ callsOfOther, ∀ id, a.Concerns id → ¬ b.Concerns id := by
  have hone : ∀ a ∈ callsOfOne, ∀ id, a.Concerns id → first.directoryId = id := by
    simp [callsOfOne, Call.Concerns]
  have hother : ∀ b ∈ callsOfOther, ∀ id, b.Concerns id → other.directoryId = id := by
    simp [callsOfOther, Call.Concerns]
  intro a ha b hb id hid hid'
  exact directoryId_ne ((hone a ha id hid).trans (hother b hb id hid').symm)

end Sample

/-- Directories are independent. Of two sequences of calls that concern no directory in common,
each call has the reply that it has when its own sequence is run alone, in whatever turns the
calls are made. The log that is left does not depend on the turns. -/
theorem directories_independent {as bs : List Call}
    (h : ∀ a ∈ as, ∀ b ∈ bs, ∀ id, a.Concerns id → ¬ b.Concerns id) (log : AuditLog) (schedule : List Bool) :
    log.run (interleave schedule as bs) =
      (interleave schedule (log.run as).1 (log.run bs).1, (log.run (as ++ bs)).2) :=
  runCalls_interleave schedule (fun a ha b hb => commute_of_disjoint (h a ha b hb)) log

theorem directories_independent_sample :
    (∀ a ∈ Sample.callsOfOne, ∀ b ∈ Sample.callsOfOther, ∀ id, a.Concerns id → ¬ b.Concerns id) ∧
    Sample.opened.run (interleave [false, true, false, true] Sample.callsOfOne Sample.callsOfOther) =
      (interleave [false, true, false, true] (Sample.opened.run Sample.callsOfOne).1
        (Sample.opened.run Sample.callsOfOther).1, (Sample.opened.run (Sample.callsOfOne ++ Sample.callsOfOther)).2) :=
  ⟨Sample.not_concerns_of_mem, directories_independent Sample.not_concerns_of_mem Sample.opened _⟩

end AuditLog

end KeyTransparency
