import KeyTransparency.Proofs.Audit.History
import KeyTransparency.Proofs.Run

/-!
# Snapshots in batches

A chain is continued by runs of snapshots, each of which is taken whole or not at all. How
snapshots are cut into runs does not matter: a run is taken exactly if its parts are, one after
the other, down to single snapshots, and it is refused for what the first single snapshot that
does not fit would be refused for.

All of this follows from how a run is checked in parts (`checkRun_append`), and from what tips
and histories have in common (`Follower`): they have a tip, and move it by the runs that it
accepts.

* `Follower.runCalls_cases`: a run of single snapshots against the check of the whole run;
* `Follower.takesBatches`: what a follower of a chain makes of batches;
* `batches_as_singles`: this, of tips and of histories.
-/

namespace KeyTransparency

variable {key : PublicKey} {before s : Snapshot} {a b run : List Snapshot} {tip : ChainTip}
  {e e' : ChainError}

/-- Continues the history with one snapshot. -/
def History.appendOne (h : History) (s : Snapshot) : Except ChainError Unit × History :=
  ((h.append [s]).1.map fun _ => (), (h.append [s]).2)

/-! ## Checking a run in parts -/

/-- By induction on the first part: its last snapshot is the one that the second part has to
follow. -/
theorem checkRun_append : checkRun key before (a ++ b) =
    checkRun key before a >>= fun _ => checkRun key (a.getLastD before) b := by
  induction a generalizing before with
  | nil => rfl
  | cons s a ih =>
    rw [List.cons_append, checkRun, checkRun, ih, List.getLastD_cons]
    cases checkLink key before s <;> rfl

namespace ChainTip

theorem moveTo_nil (tip : ChainTip) : tip.moveTo [] = tip := rfl

theorem moveTo_append (tip : ChainTip) (a b : List Snapshot) :
    tip.moveTo (a ++ b) = (tip.moveTo a).moveTo b := by
  simp [moveTo, List.getLastD_eq_getLast?, List.getLast?_append]

theorem check_append : tip.check (a ++ b) = tip.check a >>= fun _ => (tip.moveTo a).check b :=
  checkRun_append

theorem check_append_eq_ok_iff :
    tip.check (a ++ b) = .ok () ↔ tip.check a = .ok () ∧ (tip.moveTo a).check b = .ok () := by
  rw [check_append, bind_eq_ok_iff]
  exact ⟨fun ⟨_, ha, hb⟩ => ⟨ha, hb⟩, fun ⟨ha, hb⟩ => ⟨(), ha, hb⟩⟩

/-- By induction on the run: the epochs of a run are one after the other, so that none of them
comes around to 0. -/
theorem epoch_moveTo (h : tip.check run = .ok ()) :
    (tip.moveTo run).epoch.toNat = tip.epoch.toNat + run.length := by
  induction run generalizing tip with
  | nil => rfl
  | cons s run ih =>
    obtain ⟨hs, hrun⟩ := check_append_eq_ok_iff (a := [s]).mp h
    have hlink : (tip.latest :: [s]).IsChain (Snapshot.Follows tip.key) := check_eq_ok_iff.mp hs
    have hepoch : s.epoch.toNat = tip.epoch.toNat + 1 := (List.isChain_cons_cons.mp hlink).1.epoch
    have hlater := ih hrun
    rw [← moveTo_append, List.singleton_append] at hlater
    rw [hlater, List.length_cons]
    show s.epoch.toNat + run.length = tip.epoch.toNat + (run.length + 1)
    omega

end ChainTip

/-! ## Replies to single snapshots -/

/-- Every snapshot was taken. -/
def AllTaken (replies : List (Except ChainError Unit)) : Prop :=
  ∀ reply ∈ replies, reply = .ok ()

/-- The first snapshot that was refused was refused for the reason `e`. -/
def FirstRefusal (replies : List (Except ChainError Unit)) (e : ChainError) : Prop :=
  ∃ i : Nat, replies[i]? = some (.error e) ∧ ∀ j < i, replies[j]? = some (.ok ())

variable {replies : List (Except ChainError Unit)}

theorem AllTaken.cons (h : AllTaken replies) : AllTaken (.ok () :: replies) :=
  List.forall_mem_cons.mpr ⟨rfl, h⟩

theorem FirstRefusal.cons (h : FirstRefusal replies e) : FirstRefusal (.ok () :: replies) e := by
  obtain ⟨i, hi, hbefore⟩ := h
  refine ⟨i + 1, hi, fun j hj => ?_⟩
  cases j with
  | zero => rfl
  | succ j => exact hbefore j (by omega)

theorem FirstRefusal.not_allTaken (h : FirstRefusal replies e) : ¬ AllTaken replies := by
  intro hall
  obtain ⟨i, hi, -⟩ := h
  have := hall _ (List.mem_of_getElem? hi)
  cases this

theorem FirstRefusal.unique (h : FirstRefusal replies e) (h' : FirstRefusal replies e') : e = e' := by
  obtain ⟨i, hi, hbefore⟩ := h
  obtain ⟨j, hj, hbefore'⟩ := h'
  rcases Nat.lt_trichotomy i j with hlt | rfl | hlt
  · rw [hbefore' i hlt] at hi
    cases hi
  · rw [hi] at hj
    cases hj
    rfl
  · rw [hbefore j hlt] at hj
    cases hj

/-! ## Followers of a chain -/

variable {Chain : Type} {tipOf : Chain → ChainTip} {extended : Chain → List Snapshot → Chain}
  {append : Chain → List Snapshot → Except ChainError Nat × Chain}
  {appendOne : Chain → Snapshot → Except ChainError Unit × Chain} {c d : Chain} {n : Nat}

/-- What follows a chain: it has a tip, and takes a run that the tip accepts, or else stays as
it is. A single snapshot is a run of one. -/
structure Follower (tipOf : Chain → ChainTip) (extended : Chain → List Snapshot → Chain)
    (append : Chain → List Snapshot → Except ChainError Nat × Chain)
    (appendOne : Chain → Snapshot → Except ChainError Unit × Chain) : Prop where
  append_cases : ∀ c run,
    (∃ e, (tipOf c).check run = .error e ∧ append c run = (.error e, c)) ∨
    ((tipOf c).check run = .ok () ∧ append c run = (.ok run.length, extended c run))
  appendOne_eq : ∀ c s, appendOne c s = ((append c [s]).1.map fun _ => (), (append c [s]).2)
  tipOf_extended : ∀ c run, tipOf (extended c run) = (tipOf c).moveTo run
  extended_nil : ∀ c, extended c [] = c
  extended_append : ∀ c a b, extended c (a ++ b) = extended (extended c a) b

/-- Runs of snapshots are taken, or refused, as their parts and their single snapshots are. -/
structure TakesBatches (tipOf : Chain → ChainTip)
    (append : Chain → List Snapshot → Except ChainError Nat × Chain)
    (appendOne : Chain → Snapshot → Except ChainError Unit × Chain) (c : Chain) : Prop where
  parts : ∀ a b n d, append c (a ++ b) = (.ok n, d) ↔
    ∃ i j m, append c a = (.ok i, m) ∧ append m b = (.ok j, d) ∧ n = i + j
  singles : ∀ run d, (∃ n, append c run = (.ok n, d)) ↔
    AllTaken (runCalls appendOne c run).1 ∧ (runCalls appendOne c run).2 = d
  refused : ∀ run e d, append c run = (.error e, d) ↔
    FirstRefusal (runCalls appendOne c run).1 e ∧ d = c
  counted : ∀ run n d, append c run = (.ok n, d) → n = run.length ∧
    (tipOf d).epoch.toNat = (tipOf c).epoch.toNat + run.length ∧ (tipOf d).key = (tipOf c).key

namespace Follower

theorem append_eq_ok_iff (h : Follower tipOf extended append appendOne) :
    append c run = (.ok n, d) ↔ (tipOf c).check run = .ok () ∧ n = run.length ∧ d = extended c run := by
  rcases h.append_cases c run with ⟨e, hcheck, ha⟩ | ⟨hcheck, ha⟩
  · simp [hcheck, ha]
  · simp [hcheck, ha, eq_comm]

theorem append_eq_error_iff (h : Follower tipOf extended append appendOne) :
    append c run = (.error e, d) ↔ (tipOf c).check run = .error e ∧ d = c := by
  rcases h.append_cases c run with ⟨e', hcheck, ha⟩ | ⟨hcheck, ha⟩
  · simp [hcheck, ha, eq_comm]
  · simp [hcheck, ha]

/-- By induction on the run: as long as single snapshots are taken, the follower is where it
would be after the run of them. -/
theorem runCalls_cases (h : Follower tipOf extended append appendOne) (c : Chain) (run : List Snapshot) :
    (∃ e, (tipOf c).check run = .error e ∧ FirstRefusal (runCalls appendOne c run).1 e) ∨
    ((tipOf c).check run = .ok () ∧ AllTaken (runCalls appendOne c run).1 ∧
      (runCalls appendOne c run).2 = extended c run) := by
  induction run generalizing c with
  | nil => exact .inr ⟨rfl, nofun, (h.extended_nil c).symm⟩
  | cons s run ih =>
    have hcheck : (tipOf c).check (s :: run) =
        (tipOf c).check [s] >>= fun _ => ((tipOf c).moveTo [s]).check run :=
      ChainTip.check_append (a := [s])
    rw [runCalls, h.appendOne_eq, hcheck]
    rcases h.append_cases c [s] with ⟨e, hs, ha⟩ | ⟨hs, ha⟩
    · rw [ha, hs]
      exact .inl ⟨e, rfl, 0, rfl, by omega⟩
    · rw [ha, hs, ← h.tipOf_extended, show extended c (s :: run) = extended (extended c [s]) run from
        h.extended_append c [s] run]
      rcases ih (extended c [s]) with ⟨e, he, hr⟩ | ⟨hok, hall, hd⟩
      · exact .inl ⟨e, he, hr.cons⟩
      · exact .inr ⟨hok, hall.cons, hd⟩

theorem takesBatches (h : Follower tipOf extended append appendOne) (c : Chain) :
    TakesBatches tipOf append appendOne c where
  parts a b n d := by
    simp only [h.append_eq_ok_iff, ChainTip.check_append_eq_ok_iff, List.length_append, h.extended_append]
    constructor
    · rintro ⟨⟨ha, hb⟩, rfl, rfl⟩
      rw [← h.tipOf_extended] at hb
      exact ⟨a.length, b.length, extended c a, ⟨ha, rfl, rfl⟩, ⟨hb, rfl, rfl⟩, rfl⟩
    · rintro ⟨-, -, -, ⟨ha, rfl, rfl⟩, ⟨hb, rfl, rfl⟩, rfl⟩
      rw [h.tipOf_extended] at hb
      exact ⟨⟨ha, hb⟩, rfl, rfl⟩
  singles run d := by
    simp only [h.append_eq_ok_iff]
    rcases h.runCalls_cases c run with ⟨e, hcheck, hr⟩ | ⟨hcheck, hall, hd⟩
    · simp [hcheck, hr.not_allTaken]
    · simp [hcheck, hall, hd, eq_comm]
  refused run e d := by
    rw [h.append_eq_error_iff]
    rcases h.runCalls_cases c run with ⟨e', hcheck, hr⟩ | ⟨hcheck, hall, -⟩
    · rw [hcheck, Except.error.injEq]
      exact and_congr_left' ⟨fun he => he ▸ hr, hr.unique⟩
    · rw [hcheck]
      exact ⟨nofun, fun hr => absurd hall hr.1.not_allTaken⟩
  counted run n d hd := by
    obtain ⟨hcheck, rfl, rfl⟩ := h.append_eq_ok_iff.mp hd
    rw [h.tipOf_extended]
    exact ⟨rfl, ChainTip.epoch_moveTo hcheck, rfl⟩

end Follower

/-! ## Tips and histories -/

theorem ChainTip.follower : Follower id ChainTip.moveTo ChainTip.append ChainTip.appendOne where
  append_cases tip run := by
    simp only [id, ChainTip.check_eq_ok_iff]
    exact tip.append_cases run
  appendOne_eq _ _ := rfl
  tipOf_extended _ _ := rfl
  extended_nil := ChainTip.moveTo_nil
  extended_append := ChainTip.moveTo_append

theorem History.follower : Follower History.tip History.extended History.append History.appendOne where
  append_cases h run := by
    simp only [ChainTip.check_eq_ok_iff]
    exact h.append_cases run
  appendOne_eq _ _ := rfl
  tipOf_extended _ _ := rfl
  extended_nil h := by simp [History.extended, ChainTip.moveTo_nil]
  extended_append h a b := by simp [History.extended, ChainTip.moveTo_append]

/-- Of any tip and any history, whatever the key and the latest epoch: a run is taken exactly if
its parts are taken one after the other, and exactly if its snapshots are taken one by one, and
leads to the same place. A run that is refused changes nothing, and is refused for what the
first of its snapshots that is refused alone is refused for. A run that is taken moves the epoch
by its length, keeps the key, and is what a history has more of. -/
theorem batches_as_singles :
    (∀ tip : ChainTip, TakesBatches id ChainTip.append ChainTip.appendOne tip) ∧
    ∀ h : History, TakesBatches History.tip History.append History.appendOne h ∧
      ∀ run n h', h.append run = (.ok n, h') →
        h'.snapshots = h.snapshots ++ run ∧ h'.address = h.address := by
  refine ⟨ChainTip.follower.takesBatches, fun h => ⟨History.follower.takesBatches h, ?_⟩⟩
  intro run n h' ha
  obtain ⟨-, -, rfl⟩ := History.follower.append_eq_ok_iff.mp ha
  exact ⟨rfl, rfl⟩

namespace Sample

/-- The two branches are no run: after the snapshot of the one, that of the other does not fit. -/
theorem append_branches : (⟨Sample.key, first⟩ : ChainTip).append [left, right] =
    (.error (.epochGap 2 1), ⟨Sample.key, first⟩) := by
  refine ChainTip.follower.append_eq_error_iff.mpr ⟨?_, rfl⟩
  show (checkLink Sample.key first left >>= fun _ => checkRun Sample.key left [right]) =
    .error (.epochGap 2 1)
  rw [checkLink_eq_ok_iff.mpr left_follows]
  rfl

end Sample

theorem batches_as_singles_sample :
    ((⟨Sample.key, Sample.first⟩ : ChainTip).append [Sample.left] = (.ok 1, ⟨Sample.key, Sample.left⟩) ∧
      Sample.left.epoch.toNat = Sample.first.epoch.toNat + 1) ∧
    FirstRefusal
      (runCalls ChainTip.appendOne ⟨Sample.key, Sample.first⟩ [Sample.left, Sample.right]).1
      (.epochGap 2 1) := by
  have h := batches_as_singles.1 ⟨Sample.key, Sample.first⟩
  have hleft : (⟨Sample.key, Sample.first⟩ : ChainTip).append [Sample.left] =
      (.ok 1, ⟨Sample.key, Sample.left⟩) := by
    refine ChainTip.follower.append_eq_ok_iff.mpr ⟨?_, rfl, rfl⟩
    exact ChainTip.check_eq_ok_iff.mpr (.cons_cons Sample.left_follows (.singleton Sample.left))
  obtain ⟨-, hepoch, -⟩ := h.counted _ _ _ hleft
  exact ⟨⟨hleft, hepoch⟩, ((h.refused _ _ _).mp Sample.append_branches).1⟩

end KeyTransparency
