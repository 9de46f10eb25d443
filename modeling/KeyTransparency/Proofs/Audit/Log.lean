import KeyTransparency.Proofs.Audit.Call

/-!
# Runs of an audit log

Reachable logs are those that a run of calls leads to, each made on whatever medium, from a
log without histories, or from one opened on a store of any content. What a call keeps
follows from what it does (`step_cases`), and hence what every run keeps:

* `Reachable.sound`: each history is a valid chain from the snapshot on that the
  identity is the digest of;
* `run_extends`: histories stay, and only grow at their end.
-/

namespace KeyTransparency.AuditLog

variable {log : AuditLog} {id : DirectoryId} {h : History}

/-- A log as it is before the first call. -/
inductive Opened : AuditLog → Prop
  | empty : Opened .empty
  | ofStore {store : Store} {log : AuditLog} : AuditLog.ofStore store = .ok log → Opened log

/-- The log after some run of calls, each made on whatever medium. -/
def Reachable (log : AuditLog) : Prop :=
  ∃ log₀ attempts, Opened log₀ ∧ (log₀.runOn attempts).2 = log

/-! ## What every run keeps -/

theorem reachable_empty : empty.Reachable := ⟨empty, [], .empty, rfl⟩

theorem Reachable.runOn (hl : log.Reachable) (attempts : List Attempt) : (log.runOn attempts).2.Reachable := by
  obtain ⟨log₀, before, ho, rfl⟩ := hl
  exact ⟨log₀, before ++ attempts, ho, by rw [AuditLog.runOn, runCalls_append]; rfl⟩

theorem Reachable.run (hl : log.Reachable) (calls : List Call) : (log.run calls).2.Reachable := by
  rw [← runOn_writable]
  exact hl.runOn _

/-- Each history is a valid chain, from the snapshot on that the identity is the digest of. -/
def Sound (log : AuditLog) : Prop :=
  ∀ (id : DirectoryId) (h : History), log.histories[id]? = some h →
    h.Sound ∧ ∃ s, h.snapshots[0]? = some s ∧ s.directoryId = id

theorem Sound.of_histories {log' : AuditLog} (hl : log.Sound) (he : log'.histories = log.histories) :
    log'.Sound := fun id h hh => hl id h (he ▸ hh)

/-- Putting in a sound history under its identity. -/
theorem Sound.of_insert {log' : AuditLog} {s : Snapshot} (hl : log.Sound) (hh : h.Sound)
    (h0 : h.snapshots[0]? = some s) (hid : s.directoryId = id)
    (he : log'.histories = log.histories.insert id h) : log'.Sound := by
  intro id' h' hh'
  rw [he, getElem?_insert] at hh'
  split at hh'
  · rename_i e
    cases hh'
    exact ⟨hh, s, h0, hid.trans e⟩
  · exact hl id' h' hh'

theorem sound_of_build {address : String} {key : PublicKey} {first : Snapshot} {rest : List Snapshot}
    (hb : History.build address key first rest = .ok h) :
    h.Sound ∧ h.snapshots[0]? = some first := by
  obtain ⟨hv, rfl⟩ := History.build_eq_ok_iff.mp hb
  obtain ⟨hs, hr⟩ := ValidChain.cons_iff.mp hv
  exact ⟨(History.sound_of_start hs).extended hr, rfl⟩

theorem sound_step (call : Call) (hl : log.Sound) : (log.step call).2.Sound := by
  rcases log.step_cases call with ⟨-, he⟩ | ⟨_, _, first, _, h, -, -, hb, he⟩ | ⟨id, h, run, -, hh, hr, he⟩
  · rw [he]; exact hl
  · obtain ⟨hs, h0⟩ := sound_of_build hb
    exact hl.of_insert hs h0 rfl (by rw [he])
  · obtain ⟨hs, s, h0, hid⟩ := hl id h hh
    refine hl.of_insert (hs.extended hr) (s := s) ?_ hid (by rw [he])
    exact (List.getElem?_append_left (List.getElem?_eq_some_iff.mp h0).1).trans h0

theorem sound_stepOn (medium : Medium) (call : Call) (hl : log.Sound) : (log.stepOn medium call).2.Sound := by
  rcases log.stepOn_eq_or medium call with he | ⟨e, he⟩
  · rw [he]; exact sound_step call hl
  · rw [he]; exact hl

theorem restore_sound {record : Record} {snapshots : List Snapshot}
    (hr : restore id record snapshots = .ok h) :
    h.Sound ∧ ∃ s, h.snapshots[0]? = some s ∧ s.directoryId = id := by
  cases snapshots with
  | nil => cases hr
  | cons first rest =>
    simp only [restore] at hr
    split at hr
    · cases hr
    · rename_i hid
      obtain ⟨hs, h0⟩ := sound_of_build (mapError_eq_ok_iff.mp hr)
      exact ⟨hs, first, h0, not_not.mp hid⟩

/-- By induction on the records: each of them puts in a history that has been checked again. -/
theorem restoreAll_sound {store : Store} {records : List (DirectoryId × Record)} :
    ∀ {hs hs' : Std.ExtTreeMap DirectoryId History}, Sound ⟨hs, none⟩ →
      restoreAll store hs records = .ok hs' → Sound ⟨hs', none⟩ := by
  induction records with
  | nil =>
    intro hs hs' hl hr
    cases hr
    exact hl
  | cons entry records ih =>
    intro hs hs' hl hr
    obtain ⟨id, record⟩ := entry
    simp only [restoreAll, bind_eq_ok_iff] at hr
    obtain ⟨snapshots, -, h, hh, hr⟩ := hr
    obtain ⟨hsound, s, h0, hid⟩ := restore_sound hh
    exact ih (hl.of_insert hsound h0 hid rfl) hr

theorem Opened.sound (ho : Opened log) : log.Sound := by
  cases ho with
  | empty =>
    intro id h hh
    rw [AuditLog.empty, Std.ExtTreeMap.getElem?_empty] at hh
    cases hh
  | ofStore hs =>
    simp only [AuditLog.ofStore, bind_eq_ok_iff, pure_eq_ok_iff] at hs
    obtain ⟨records, -, histories, hr, rfl⟩ := hs
    have he : Sound ⟨∅, none⟩ := fun id h hh => by
      rw [Std.ExtTreeMap.getElem?_empty] at hh
      cases hh
    exact (restoreAll_sound he hr).of_histories rfl

theorem Reachable.sound (hl : log.Reachable) : log.Sound := by
  obtain ⟨log₀, attempts, ho, rfl⟩ := hl
  exact runCalls_induction (fun _ attempt => sound_stepOn attempt.medium attempt.call) attempts ho.sound

/-! ## Growth -/

/-- No call takes anything from a history. -/
theorem step_extends (call : Call) (hh : log.histories[id]? = some h) :
    ∃ h', (log.step call).2.histories[id]? = some h' ∧ h.Extends h' := by
  rcases log.step_cases call with ⟨-, he⟩ | ⟨_, _, first, _, h', -, hn, -, he⟩ | ⟨id', h', run, -, hh', -, he⟩
  · exact ⟨h, by rw [he]; exact hh, .refl h⟩
  · refine ⟨h, ?_, .refl h⟩
    rw [he, getElem?_insert, if_neg, hh]
    rintro rfl
    rw [hn] at hh
    cases hh
  · rw [he, getElem?_insert]
    split
    · rename_i e
      rw [e, hh] at hh'
      cases hh'
      exact ⟨_, rfl, h.extends_extended run⟩
    · exact ⟨h, hh, .refl h⟩

theorem run_extends (calls : List Call) (hh : log.histories[id]? = some h) :
    ∃ h', (log.run calls).2.histories[id]? = some h' ∧ h.Extends h' := by
  induction calls generalizing log h with
  | nil => exact ⟨h, hh, .refl h⟩
  | cons call calls ih =>
    obtain ⟨h₁, hh₁, he₁⟩ := step_extends call hh
    obtain ⟨h₂, hh₂, he₂⟩ := ih hh₁
    exact ⟨h₂, hh₂, he₁.trans he₂⟩

/-! ## The histories of a reachable log -/

theorem history_eq_ok_iff : log.history id = .ok h ↔ log.histories[id]? = some h := by
  rw [history]
  cases log.histories[id]? with
  | none => simp
  | some h' => simp

/-- A request for epochs that a history has is answered with its snapshots. -/
theorem answer_eq_ofHistory {a b : Epoch} {run : List Snapshot} (hh : log.history id = .ok h)
    (hr : h.range? a b = some run) : log.answer ⟨id, a, b⟩ = .ofHistory run := by
  simp [answer, observedRange, hh, hr, bind, Except.bind, pure, Except.pure]

/-- Snapshots are handed out of a history that has them all. -/
theorem of_asHistory_answer {a b : Epoch} {run : List Snapshot}
    (hr : (log.answer ⟨id, a, b⟩).asHistory = .ok run) :
    ∃ h, log.history id = .ok h ∧ a ≤ b ∧ b ≤ h.latest.epoch := by
  obtain ⟨-, hbody, -, -⟩ := Response.asHistory_eq_ok_iff.mp hr
  simp only [answer, observedRange] at hbody
  cases hh : log.history id with
  | error e =>
    rw [hh] at hbody
    cases hbody
  | ok h =>
    refine ⟨h, rfl, ?_⟩
    cases hrange : h.range? a b with
    | none => simp [hh, hrange, bind, Except.bind, Response.failure] at hbody
    | some run' =>
      simp only [History.range?] at hrange
      split at hrange
      · cases hrange
      · rename_i hab
        rw [not_or, UInt64.not_lt, UInt64.not_lt] at hab
        exact hab

namespace Sample

open KeyTransparency.Sample (key first left left_follows)

/-- A store with the first snapshot of a directory, and with a row that stands for nothing. -/
def store : Store :=
  (Store.disk ⟨∅, (∅ : Table).insert [7] [7]⟩).putDirectory first.directoryId
    ⟨"directory:1", key⟩ [first]

/-- The log that is opened on the store. -/
def opened : AuditLog :=
  ⟨(∅ : Std.ExtTreeMap DirectoryId History).insert first.directoryId
    ⟨"directory:1", ⟨key, first⟩, [first]⟩, some store⟩

/-- The next snapshot is put in. -/
def calls : List Call := [.extend first.directoryId [left]]

/-- What the log then has of the directory. -/
def history : History := ⟨"directory:1", ⟨key, left⟩, [first, left]⟩

theorem opened_reachable : opened.Reachable :=
  ⟨opened, [], .ofStore (by decide +kernel : AuditLog.ofStore store = .ok opened), rfl⟩

theorem history_of_run : (opened.run calls).2.history first.directoryId = .ok history := by
  have hh : opened.histories[first.directoryId]? = some ⟨"directory:1", ⟨key, first⟩, [first]⟩ :=
    Std.ExtTreeMap.getElem?_insert_self
  have he := extend_eq_of_isChain (List.cons_ne_nil left []) hh (.cons_cons left_follows (.singleton left))
  rw [history_eq_ok_iff, calls]
  simp only [run, runCalls, step, he]
  exact Std.ExtTreeMap.getElem?_insert_self

end Sample

/-- Whatever a store held when a log was opened on it, and whatever the log was asked
since: every history is a whole valid chain under its key, and its identity is the
digest of its first snapshot. -/
theorem validFor_of_reachable (hl : log.Reachable) (hh : log.history id = .ok h) :
    h.ValidFor id := by
  obtain ⟨hs, s, h0, hid⟩ := hl.sound id h (history_eq_ok_iff.mp hh)
  exact hs.validFor h0 hid

theorem validFor_sample :
    (Sample.opened.run Sample.calls).2.Reachable ∧
    (Sample.opened.run Sample.calls).2.history KeyTransparency.Sample.first.directoryId =
      .ok Sample.history ∧
    Sample.history.ValidFor KeyTransparency.Sample.first.directoryId :=
  ⟨Sample.opened_reachable.run _, Sample.history_of_run,
    validFor_of_reachable (Sample.opened_reachable.run _) Sample.history_of_run⟩

end KeyTransparency.AuditLog
