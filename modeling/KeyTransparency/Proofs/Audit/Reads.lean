import KeyTransparency.Proofs.Audit.Log

/-!
# What an audit log hands out

What a log was brought is told by the calls and the replies alone: the snapshots of all
calls about a directory that were not refused, in the order of the calls (`admitted`), and
the address of the call that started the directory (`StartedAt`). A log that had no
histories at first holds exactly that (`held_run`, `holdsAt_run`), and whatever it is asked,
it answers from what it holds (`Sound.reflects`):

* `reads_reflect_admitted`: after every run, each question is answered by what the calls of
  the run brought.
-/

namespace KeyTransparency.AuditLog

/-- The snapshots of a directory that a call brings, by the reply to it. A call that is
refused brings none. -/
def Call.brings (id : DirectoryId) : Call → Reply → List Snapshot
  | .start _ _ snapshots, .id (.ok id') => if id' = id then snapshots else []
  | .extend id' run, .count (.ok _) => if id' = id then run else []
  | .ingest id' r, .count (.ok _) => if id' = id then (r.body.map Body.snapshots).getD [] else []
  | _, _ => []

/-- The snapshots of a directory that calls with such replies brought, one call's after
the other's. -/
def admitted (calls : List Call) (replies : List Reply) (id : DirectoryId) : List Snapshot :=
  (List.zipWith (Call.brings id) calls replies).flatten

/-- One of the calls started the directory, under the address. -/
def StartedAt (calls : List Call) (replies : List Reply) (id : DirectoryId) (address : String) : Prop :=
  ∃ key snapshots, (Call.start address key snapshots, Reply.id (.ok id)) ∈ calls.zip replies

/-- Whatever the log is asked, it answers from the given snapshots and addresses of
directories. -/
structure Reflects (log : AuditLog) (snapshots : DirectoryId → List Snapshot)
    (address : DirectoryId → String → Prop) : Prop where
  contains : ∀ id, log.contains id = true ↔ snapshots id ≠ []
  latest : ∀ id, log.latest id = (snapshots id).getLast?.elim (.error (.unknownDirectory id)) .ok
  listed : ∀ id, id ∈ log.directories.map (·.id) ↔ snapshots id ≠ []
  ascending : log.directories.Pairwise fun d d' => compare d.id d'.id = .lt
  summaries : ∀ d ∈ log.directories, (∀ a, address d.id a ↔ a = d.address) ∧
    d.latestEpoch.toNat = (snapshots d.id).length - 1
  range : ∀ id first last, log.observedRange id first last =
    if snapshots id = [] then .error (.unknownDirectory id)
    else if first ≤ last ∧ last.toNat < (snapshots id).length then
      .ok (((snapshots id).drop first.toNat).take (last.toNat + 1 - first.toNat))
    else .error (.malformed .outOfBounds)
  answer : ∀ id first last run, log.observedRange id first last = .ok run →
    log.answer ⟨id, first, last⟩ = ⟨.ok, some (.history run)⟩ ∧
      (log.answer ⟨id, first, last⟩).asHistory = .ok run
  refusal : ∀ id first last e, log.observedRange id first last = .error e →
    log.answer ⟨id, first, last⟩ = ⟨e.status, none⟩

/-- The snapshots that the log holds of a directory. -/
def held (log : AuditLog) (id : DirectoryId) : List Snapshot :=
  (log.histories[id]?.map History.snapshots).getD []

/-- The log holds the directory under the address. -/
def HoldsAt (log : AuditLog) (id : DirectoryId) (address : String) : Prop :=
  ∃ h, log.histories[id]? = some h ∧ h.address = address

variable {log : AuditLog} {id id' : DirectoryId} {h : History} {address : String}

/-! ## What a run brings -/

theorem Call.brings_eq_nil {call : Call} {reply : Reply} (hr : reply.TakesNothing) : call.brings id reply = [] := by
  rw [Call.brings.eq_def]
  split
  · exact absurd rfl (hr.not_id _)
  · exact absurd rfl (hr.not_count _)
  · exact absurd rfl (hr.not_count _)
  · rfl

theorem held_insert (store : Option Store) : held ⟨log.histories.insert id h, store⟩ id' =
    if id = id' then h.snapshots else log.held id' := by
  rw [held, getElem?_insert]
  split
  · rfl
  · rfl

theorem holdsAt_insert (store : Option Store) : HoldsAt ⟨log.histories.insert id h, store⟩ id' address ↔
    if id = id' then h.address = address else log.HoldsAt id' address := by
  rw [HoldsAt, getElem?_insert]
  split
  · simp
  · rfl

/-- What a call brings stands at the end of what is held. -/
theorem held_step (log : AuditLog) (call : Call) (id : DirectoryId) :
    (log.step call).2.held id = log.held id ++ call.brings id (log.step call).1 := by
  rcases log.step_cases call with
    ⟨hr, he⟩ | ⟨_, _, first, rest, h, rfl, hn, hb, he⟩ | ⟨id', h, run, hcall, hh, -, he⟩
  · rw [he, Call.brings_eq_nil hr, List.append_nil]
  · obtain ⟨-, rfl⟩ := History.build_eq_ok_iff.mp hb
    rw [he, held_insert, Call.brings]
    split
    · rename_i hid
      rw [held, ← hid, hn]
      rfl
    · rw [List.append_nil]
  · have hbrings : call.brings id (.count (.ok run.length)) = if id' = id then run else [] := by
      rcases hcall with rfl | ⟨r, rfl, hr⟩
      · rfl
      · obtain ⟨-, hbody, -, -⟩ := Response.asHistory_eq_ok_iff.mp hr
        rw [Call.brings, hbody]
        rfl
    rw [he, held_insert, hbrings]
    split
    · rename_i hid
      rw [held, ← hid, hh]
      rfl
    · rw [List.append_nil]

theorem holdsAt_step (log : AuditLog) (call : Call) (id : DirectoryId) (address : String) :
    (log.step call).2.HoldsAt id address ↔ log.HoldsAt id address ∨
      ∃ key snapshots, call = .start address key snapshots ∧ (log.step call).1 = .id (.ok id) := by
  rcases log.step_cases call with
    ⟨hr, he⟩ | ⟨address', key, first, rest, h, rfl, hn, hb, he⟩ | ⟨id', h, run, hcall, hh, -, he⟩
  · simp [he, hr.not_id id]
  · obtain ⟨-, rfl⟩ := History.build_eq_ok_iff.mp hb
    rw [he, holdsAt_insert]
    split
    · rename_i hid
      subst hid
      simp [HoldsAt, hn, History.extended]
    · rename_i hid
      simp [hid]
  · rw [he, holdsAt_insert]
    split
    · rename_i hid
      subst hid
      simp [HoldsAt, hh, History.extended]
    · simp

/-- By induction on the calls. -/
theorem held_run (log : AuditLog) (calls : List Call) (id : DirectoryId) :
    (log.run calls).2.held id = log.held id ++ admitted calls (log.run calls).1 id := by
  induction calls generalizing log with
  | nil => exact (List.append_nil _).symm
  | cons call calls ih =>
    refine (ih (log.step call).2).trans ?_
    rw [held_step, List.append_assoc]
    rfl

theorem holdsAt_run (log : AuditLog) (calls : List Call) (id : DirectoryId) (address : String) :
    (log.run calls).2.HoldsAt id address ↔
      log.HoldsAt id address ∨ StartedAt calls (log.run calls).1 id address := by
  induction calls generalizing log with
  | nil => simp [StartedAt, run, runCalls]
  | cons call calls ih =>
    refine (ih (log.step call).2).trans ?_
    rw [holdsAt_step, or_assoc]
    refine or_congr_right ?_
    simp only [StartedAt, run, runCalls, List.zip_cons_cons, List.mem_cons, Prod.mk.injEq, exists_or]
    exact or_congr_left (by simp only [eq_comm])

/-! ## Questions -/

theorem Sound.held_ne_nil_iff (hl : log.Sound) : log.held id ≠ [] ↔ ∃ h, log.histories[id]? = some h := by
  rw [held]
  cases hh : log.histories[id]? with
  | none => simp
  | some h => simpa using (hl id h hh).1.chain.ne_nil

theorem observedRange_eq (hl : log.Sound) (id : DirectoryId) (first last : Epoch) :
    log.observedRange id first last =
      if log.held id = [] then .error (.unknownDirectory id)
      else if first ≤ last ∧ last.toNat < (log.held id).length then
        .ok (((log.held id).drop first.toNat).take (last.toNat + 1 - first.toNat))
      else .error (.malformed .outOfBounds) := by
  rw [held]
  cases hh : log.histories[id]? with
  | none => simp [observedRange, history, hh, bind, Except.bind]
  | some h =>
    have hs : h.Sound := (hl id h hh).1
    have hne : h.snapshots ≠ [] := hs.chain.ne_nil
    rw [observedRange, history_eq_ok_iff.mpr hh, Option.map_some, Option.getD_some, if_neg hne]
    simp only [bind, Except.bind, hs.range?_eq]
    by_cases hin : first ≤ last ∧ last.toNat < h.snapshots.length
    · simp only [if_pos hin]
      rfl
    · simp only [if_neg hin]

/-- What is handed out of a history passes as the answer of an auditor. -/
theorem asHistory_answer (hl : log.Sound) {first last : Epoch} {run : List Snapshot}
    (hr : log.observedRange id first last = .ok run) : (log.answer ⟨id, first, last⟩).asHistory = .ok run := by
  have hanswer : log.answer ⟨id, first, last⟩ = .ofHistory run := by simp only [answer, hr]
  rw [hanswer, Response.asHistory_eq_ok_iff, consecutive_iff]
  rw [observedRange_eq hl, held] at hr
  cases hh : log.histories[id]? with
  | none => simp [hh] at hr
  | some h =>
    have hs : h.Sound := (hl id h hh).1
    rw [hh, Option.map_some, Option.getD_some, if_neg hs.chain.ne_nil] at hr
    split at hr
    · rename_i hin
      cases hr
      rw [UInt64.le_iff_toNat_le] at hin
      refine ⟨rfl, rfl, ?_, ((hs.chain.linked.drop _).take _).imp fun _ _ hst => hst.epoch⟩
      rw [← List.length_pos_iff, List.length_take, List.length_drop]
      omega
    · cases hr

theorem mem_directories_iff {d : DirectorySummary} : d ∈ log.directories ↔
    ∃ h, log.histories[d.id]? = some h ∧ h.address = d.address ∧ h.latest.epoch = d.latestEpoch := by
  simp only [directories, List.mem_map, Prod.exists, Std.ExtTreeMap.mem_toList_iff_getElem?_eq_some]
  constructor
  · rintro ⟨id, h, hh, rfl⟩
    exact ⟨h, hh, rfl, rfl⟩
  · rintro ⟨h, hh, ha, he⟩
    exact ⟨d.id, h, hh, by rw [ha, he]⟩

/-- A log answers from what it holds. -/
theorem Sound.reflects (hl : log.Sound) : log.Reflects log.held log.HoldsAt where
  contains id := by
    rw [hl.held_ne_nil_iff, AuditLog.contains, Std.ExtTreeMap.contains_eq_isSome_getElem?, Option.isSome_iff_exists]
  latest id := by
    rw [AuditLog.latest, history, held]
    cases hh : log.histories[id]? with
    | none => rfl
    | some h =>
      rw [Option.map_some, Option.getD_some, (hl id h hh).1.latest]
      rfl
  listed id := by
    rw [hl.held_ne_nil_iff, List.mem_map]
    constructor
    · rintro ⟨d, hd, rfl⟩
      obtain ⟨h, hh, -⟩ := mem_directories_iff.mp hd
      exact ⟨h, hh⟩
    · rintro ⟨h, hh⟩
      exact ⟨⟨id, h.address, h.latest.epoch⟩, mem_directories_iff.mpr ⟨h, hh, rfl, rfl⟩, rfl⟩
  ascending := by
    rw [directories, List.pairwise_map]
    exact Std.ExtTreeMap.ordered_keys_toList
  summaries d hd := by
    obtain ⟨h, hh, ha, he⟩ := mem_directories_iff.mp hd
    have hlen := (hl d.id h hh).1.length_eq
    refine ⟨fun a => ?_, ?_⟩
    · simp [HoldsAt, hh, ha, eq_comm]
    · rw [← he, held, hh, Option.map_some, Option.getD_some, hlen]
      rfl
  range := observedRange_eq hl
  answer id first last run hr := ⟨by simp only [AuditLog.answer, hr]; rfl, asHistory_answer hl hr⟩
  refusal id first last e hr := by
    simp only [AuditLog.answer, hr]
    rfl

/-- A log that had no histories at first, whatever its store, has of every directory the
snapshots of the calls about it that were not refused, in the order of the calls. What it
lists and hands out is that and no more, and where it has not what it is asked for, it says
which is missing, the directory or the range. -/
theorem reads_reflect_admitted (store : Option Store) (calls : List Call) :
    (run ⟨∅, store⟩ calls).2.Reflects (admitted calls (run ⟨∅, store⟩ calls).1)
      (StartedAt calls (run ⟨∅, store⟩ calls).1) := by
  have hempty (id : DirectoryId) : (∅ : Std.ExtTreeMap DirectoryId History)[id]? = none :=
    Std.ExtTreeMap.getElem?_empty
  have hsound : Sound (run ⟨∅, store⟩ calls).2 := by
    refine runCalls_induction (fun _ call => sound_step call) calls fun id h hh => ?_
    rw [hempty] at hh
    cases hh
  have hheld : held (run ⟨∅, store⟩ calls).2 = admitted calls (run ⟨∅, store⟩ calls).1 := by
    funext id
    rw [held_run, held, hempty]
    rfl
  have hat : HoldsAt (run ⟨∅, store⟩ calls).2 = StartedAt calls (run ⟨∅, store⟩ calls).1 := by
    funext id address
    rw [holdsAt_run, HoldsAt, hempty]
    simp
  exact hheld ▸ hat ▸ hsound.reflects

end KeyTransparency.AuditLog
