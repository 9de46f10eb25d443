/-!
# Runs of calls

A system replies to a call and is in some state after it (`step`). In a run, calls are
made one after the other (`runCalls`).

* `runCalls_append`: a run may be cut anywhere;
* `runCalls_take_succ`: each call is made in the state that those before it lead to;
* `runCalls_induction`: what every call keeps, every run keeps;
* `runCalls_interleave`: where the calls of two runs commute (`Commute`), making them in
  turns (`interleave`) changes no reply, and leads where one run after the other leads.
-/

namespace KeyTransparency

variable {State Call Reply : Type} {step : State → Call → Reply × State}

/-- The replies to the calls, and the state after them. -/
def runCalls (step : State → Call → Reply × State) (s : State) : List Call → List Reply × State
  | [] => ([], s)
  | call :: calls =>
    ((step s call).1 :: (runCalls step (step s call).2 calls).1,
      (runCalls step (step s call).2 calls).2)

theorem runCalls_append (s : State) (calls more : List Call) :
    runCalls step s (calls ++ more) =
      ((runCalls step s calls).1 ++ (runCalls step (runCalls step s calls).2 more).1,
        (runCalls step (runCalls step s calls).2 more).2) := by
  induction calls generalizing s with
  | nil => rfl
  | cons call calls ih => rw [List.cons_append, runCalls, ih, runCalls, List.cons_append]

theorem runCalls_map {α : Type} (f : α → Call) (s : State) (l : List α) :
    runCalls step s (l.map f) = runCalls (fun s a => step s (f a)) s l := by
  induction l generalizing s with
  | nil => rfl
  | cons a l ih => rw [List.map_cons, runCalls, ih, runCalls]

theorem runCalls_take_drop (s : State) (calls : List Call) (n : Nat) :
    (runCalls step (runCalls step s (calls.take n)).2 (calls.drop n)).2 = (runCalls step s calls).2 := by
  rw [← congrArg (runCalls step s) (List.take_append_drop n calls), runCalls_append]

theorem runCalls_take_succ (step : State → Call → Reply × State) (s : State) {calls : List Call} {i : Nat}
    {call : Call} (h : calls[i]? = some call) :
    (runCalls step s calls).1[i]? = some (step (runCalls step s (calls.take i)).2 call).1 ∧
      (runCalls step s (calls.take (i + 1))).2 = (step (runCalls step s (calls.take i)).2 call).2 := by
  induction i generalizing s calls with
  | zero =>
    cases calls with
    | nil => cases h
    | cons first calls =>
      cases h
      exact ⟨rfl, rfl⟩
  | succ i ih =>
    cases calls with
    | nil => cases h
    | cons first calls => exact ih _ h

theorem runCalls_induction {P : State → Prop} (hstep : ∀ s call, P s → P (step s call).2)
    (calls : List Call) {s : State} (hs : P s) : P (runCalls step s calls).2 := by
  induction calls generalizing s with
  | nil => exact hs
  | cons call calls ih => exact ih (hstep s call hs)

/-! ## Two runs at once -/

/-- Two sequences made one: the schedule says at each turn whether the first of them goes on
or the second. When it ends, or the one that is to go on has ended, the rest follows. -/
def interleave {α : Type} : List Bool → List α → List α → List α
  | [], as, bs => as ++ bs
  | true :: _, [], bs => bs
  | true :: schedule, a :: as, bs => a :: interleave schedule as bs
  | false :: _, as, [] => as
  | false :: schedule, as, b :: bs => b :: interleave schedule as bs

/-- Whichever of two calls is made first, each has the reply that it has when it is made
alone, and the same state is left. -/
structure Commute (step : State → Call → Reply × State) (a b : Call) : Prop where
  reply_left : ∀ s, (step (step s b).2 a).1 = (step s a).1
  reply_right : ∀ s, (step (step s a).2 b).1 = (step s b).1
  state : ∀ s, (step (step s b).2 a).2 = (step (step s a).2 b).2

variable {a b : Call} {as bs : List Call}

theorem Commute.symm (h : Commute step a b) : Commute step b a :=
  ⟨h.reply_right, h.reply_left, fun s => (h.state s).symm⟩

/-- A call may be put off to the end of a run with all of whose calls it commutes. -/
theorem runCalls_step_of_commute (h : ∀ b ∈ bs, Commute step a b) (s : State) :
    (runCalls step (step s a).2 bs).1 = (runCalls step s bs).1 ∧
      (step (runCalls step s bs).2 a).1 = (step s a).1 ∧
      (runCalls step (step s a).2 bs).2 = (step (runCalls step s bs).2 a).2 := by
  induction bs generalizing s with
  | nil => exact ⟨rfl, rfl, rfl⟩
  | cons b bs ih =>
    obtain ⟨hb, hbs⟩ := List.forall_mem_cons.mp h
    obtain ⟨hreplies, hreply, hstate⟩ := ih hbs (step s b).2
    refine ⟨?_, hreply.trans (hb.reply_left s), ?_⟩
    · rw [runCalls, runCalls, hb.reply_right, ← hb.state, hreplies]
    · rw [runCalls, runCalls, ← hb.state]
      exact hstate

/-- The replies of a run do not change because another one was made before. -/
theorem runCalls_replies_of_commute (h : ∀ a ∈ as, ∀ b ∈ bs, Commute step a b) (s : State) :
    (runCalls step (runCalls step s as).2 bs).1 = (runCalls step s bs).1 := by
  induction as generalizing s with
  | nil => rfl
  | cons a as ih =>
    obtain ⟨ha, has⟩ := List.forall_mem_cons.mp h
    rw [runCalls, ih has, (runCalls_step_of_commute ha s).1]

/-- By induction on the schedule: the call that is made next commutes with all that the
other run has left. -/
theorem runCalls_interleave (schedule : List Bool) (h : ∀ a ∈ as, ∀ b ∈ bs, Commute step a b) (s : State) :
    runCalls step s (interleave schedule as bs) =
      (interleave schedule (runCalls step s as).1 (runCalls step s bs).1, (runCalls step s (as ++ bs)).2) := by
  induction schedule generalizing as bs s with
  | nil =>
    rw [interleave, interleave, runCalls_append, runCalls_replies_of_commute h]
  | cons first schedule ih =>
    cases first with
    | true =>
      cases as with
      | nil => rfl
      | cons a as =>
        obtain ⟨ha, has⟩ := List.forall_mem_cons.mp h
        rw [interleave, runCalls, ih has, (runCalls_step_of_commute ha s).1]
        rfl
    | false =>
      cases bs with
      | nil =>
        rw [interleave, List.append_nil]
        rfl
      | cons b bs =>
        have hb : ∀ a ∈ as, Commute step b a := fun a ha => (h a ha b (.head bs)).symm
        have hbs : ∀ a ∈ as, ∀ b ∈ bs, Commute step a b := fun a ha c hc => h a ha c (.tail b hc)
        obtain ⟨hreplies, -, hstate⟩ := runCalls_step_of_commute hb s
        rw [interleave, runCalls, ih hbs, hreplies, runCalls_append, runCalls_append, runCalls, hstate]
        rfl

end KeyTransparency
