import KeyTransparency.Proofs.Client.Outcome

/-!
# What a refused answer leaves behind

An answer is refused before its snapshots are looked at, because of them, or after they were
taken. What is left of the session depends on which of these it is, and the error tells it
(`Session.Leaves`):

* before, the session is as it was;
* because of them, it is as it was, and faulted;
* after, it has moved along its chain, as if the answer had succeeded, and all promises are
  as they were (`Session.Moved`).

A faulted session stays exactly as it is (`Tracks.step_of_faulted`).

* `Session.refusal_leaves`: what any refusal leaves behind, and that a fault is final.
-/

namespace KeyTransparency.Session

/-- The session took the snapshots of the answer, and nothing else. -/
structure Moved (c d : Session) (r : Response) : Prop where
  before : c.state = .tracking
  after : d.state = .tracking
  promises : d.promises = c.promises
  grown : ∃ latest answer, c.latest? = some latest ∧ r.asProof = .ok answer ∧ c.GrownBy d latest answer.snapshots

/-- `d` is what is left of the session `c` when the answer is refused with the error. -/
def Leaves (c d : Session) (r : Response) : SessionError → Prop
  | .uninitialized | .faulted | .response _ => d = c
  | .equivocation _ => c.state = .tracking ∧ d = { c with faulted := true }
  | .chain cause =>
    c.state = .tracking ∧ d = { c with faulted := true } ∧ (SessionError.chain cause).status = .invalidChain
  | .proof _ | .invalidPromise _ | .keyMismatch _ => c.Moved d r
  | .alreadyInitialized => False

variable {verify : ProofVerifier} {c d : Session} {tip : ChainTip} {l snapshots : List Snapshot}
  {kind : RequestKind} {r : Response} {name : String} {expected value : Option Bytes} {answer : MappingProof}
  {last : Snapshot} {promise : Option Promise} {e : SessionError}

/-! ## The errors of each step -/

theorem takeSnapshots_eq_error (ht : c.tip = some tip) (h : c.takeSnapshots snapshots = (.error e, d)) :
    d = { c with faulted := true } ∧
      ((∃ epoch, e = .equivocation epoch) ∨ ∃ cause fresh, e = .chain cause ∧ tip.check fresh = .error cause) := by
  rw [takeSnapshots] at h
  split at h
  · cases h
    exact ⟨rfl, .inl ⟨_, rfl⟩⟩
  · cases h
  · rename_i fresh _ _
    split at h
    · rename_i hn
      rw [ht] at hn
      cases hn
    · rename_i tip' ht'
      rw [ht, Option.some.injEq] at ht'
      subst ht'
      rcases tip.append_cases fresh with ⟨cause, hcheck, ha⟩ | ⟨-, ha⟩
      · rw [ha] at h
        cases h
        exact ⟨rfl, .inr ⟨cause, fresh, rfl, hcheck⟩⟩
      · rw [ha] at h
        cases h

theorem checkPromise_eq_error {key : PublicKey} (hk : c.key? = some key) (h : c.checkPromise answer name last = .error e) :
    ∃ fault, e = .invalidPromise fault := by
  simp only [checkPromise, hk] at h
  split at h
  · cases h
    exact ⟨_, rfl⟩
  · repeat' split at h
    all_goals cases h
    all_goals exact ⟨_, rfl⟩

theorem readValue_eq_error {key : PublicKey} (hk : c.key? = some key)
    (h : c.readValue verify kind answer name last = .error e) :
    (∃ cause, e = .proof cause) ∨ ∃ fault, e = .invalidPromise fault := by
  rw [readValue] at h
  split at h
  · cases h
    exact .inl ⟨_, rfl⟩
  · split at h
    · cases hp : c.checkPromise answer name last with
      | error e' =>
        rw [hp] at h
        cases h
        exact .inr (checkPromise_eq_error hk hp)
      | ok p =>
        rw [hp] at h
        cases h
    · cases h

theorem dischargePromise_eq_error {epoch : Epoch} (h : c.dischargePromise name epoch value = .error e) :
    e = .keyMismatch name := by
  rw [dischargePromise] at h
  repeat' split at h
  all_goals cases h
  rfl

theorem settle_eq_error (h : c.settle kind name expected last value promise = .error e) : e = .keyMismatch name := by
  rw [settle_eq] at h
  split at h
  · cases kind with
    | registration => cases h
    | keyLookup =>
      cases hd : c.dischargePromise name last.epoch value with
      | ok c' =>
        simp only [hd] at h
        cases h
      | error e' =>
        simp only [hd] at h
        cases h
        exact dischargePromise_eq_error hd
  · cases h
    rfl

/-! ## Whole answers -/

theorem Tracks.moved_advanced (h : c.Tracks tip l) (hf : c.faulted = false) (ha : r.asProof = .ok answer)
    (ht : c.takeSnapshots answer.snapshots = (.ok (), d)) : c.Moved d r := by
  obtain ⟨-, hr, rfl⟩ := (h.takeSnapshots_eq_ok_iff (Response.pairwise_epoch_of_asProof ha)).mp ht
  have hgrown := h.grownBy_advanced hr c.promises
  have hstate := h.state_eq_tracking_iff.mpr hf
  exact ⟨hstate, hgrown.state.trans hstate, rfl, tip.latest, answer, h.holdsChain.isLatest, ha, hgrown⟩

/-- The steps of an answer in order: the first one that refuses it decides what is left. -/
theorem Tracks.leaves_of_receive (h : c.Tracks tip l)
    (hreceive : c.receive verify kind r name expected = (.error e, d)) : c.Leaves d r e := by
  rw [receive] at hreceive
  split at hreceive <;> [(cases hreceive; rfl); rename_i hf]
  split at hreceive <;> [(cases hreceive; rfl); skip]
  split at hreceive <;> [(cases hreceive; rfl); rename_i answer ha]
  rw [Bool.not_eq_true] at hf
  have hstate := h.state_eq_tracking_iff.mpr hf
  split at hreceive
  · rename_i ht
    cases hreceive
    obtain ⟨rfl, ⟨epoch, rfl⟩ | ⟨cause, fresh, rfl, hcheck⟩⟩ := takeSnapshots_eq_error h.tip ht
    · exact ⟨hstate, rfl⟩
    · exact ⟨hstate, rfl, status_of_checkRun_eq_error h.chain.chain.point hcheck⟩
  · rename_i taken ht
    have hmoved := h.moved_advanced hf ha ht
    have hkey : taken.key? = some tip.key := by
      obtain ⟨fresh, rfl, -⟩ := h.observedAt?_of_takeSnapshots ht
      exact (key?_advanced h.tip).trans h.holdsChain.pinned
    split at hreceive
    · -- An answer that was read has snapshots.
      rename_i hnone
      exact absurd (List.getLast?_eq_none_iff.mp hnone) (Response.asProof_eq_ok_iff.mp ha).2.2.1
    · split at hreceive
      · rename_i hv
        cases hreceive
        obtain ⟨cause, rfl⟩ | ⟨fault, rfl⟩ := readValue_eq_error hkey hv <;> exact hmoved
      · split at hreceive <;> cases hreceive
        rename_i hs
        rw [settle_eq_error hs]
        exact hmoved

/-- What is asked of a faulted session changes nothing, and is refused. -/
theorem Tracks.step_of_faulted (h : c.Tracks tip l) (verify : ProofVerifier) (hf : c.faulted = true) (call : Call) :
    (Session.step verify c call).2 = c ∧ (Session.step verify c call).1 ≠ .started (.ok ()) ∧
      ∀ value, (Session.step verify c call).1 ≠ .value (.ok value) := by
  cases call with
  | start initial key => simp [Session.step, start, h.tip]
  | receive kind r name expected => simp [Session.step, receive, hf]
  | crossCheck r => simp [Session.step]

theorem Tracks.run_of_faulted (h : c.Tracks tip l) (hf : c.faulted = true) (calls : List Call) :
    (Session.run verify c calls).2 = c ∧ ∀ reply ∈ (Session.run verify c calls).1,
      reply ≠ .started (.ok ()) ∧ ∀ value, reply ≠ .value (.ok value) := by
  induction calls with
  | nil => exact ⟨rfl, nofun⟩
  | cons call calls ih =>
    obtain ⟨hsame, hreply⟩ := h.step_of_faulted verify hf call
    rw [Session.run, runCalls, hsame]
    exact ⟨ih.1, List.forall_mem_cons.mpr ⟨hreply, ih.2⟩⟩

namespace Sample

open KeyTransparency.Sample (key first left right)

/-- The session before it was given the answer of `calls`. -/
def started : Session := ⟨some ⟨key, first⟩, false, (∅ : Std.ExtTreeMap Epoch Snapshot).insert 0 first, ∅⟩

/-- The session that has seen the directory fork. -/
def faulted : Session := { session with faulted := true }

/-- An answer that belongs to the chain, and whose proof belongs to no root. -/
def unproved : Response := .ofProof ⟨[first, left], [], none⟩

/-- An answer with a second snapshot of an epoch. -/
def forked : Response := .ofProof ⟨[right], [], none⟩

theorem started_reachable : Reachable Commitment.verify started :=
  ⟨[.start first key], by rw [run, runCalls, step, start_empty_eq KeyTransparency.Sample.first_starts]; rfl⟩

theorem receive_unproved : started.receive Commitment.verify .keyLookup unproved "alice" none =
    (.error (.proof Commitment.rootMismatch), session) := by
  decide +kernel

theorem receive_forked : session.receive Commitment.verify .keyLookup forked "alice" none =
    (.error (.equivocation 1), faulted) := by
  decide +kernel

theorem faulted_reachable : Reachable Commitment.verify faulted := by
  have h := session_reachable.run [.receive .keyLookup forked "alice" none]
  rwa [run, runCalls, step, receive_forked] at h

end Sample

/-- Of every session that can come about: the error that an answer is refused with tells what
is left of the session. Once a session is faulted, no start and no answer succeeds, and
nothing that is asked changes it. -/
theorem refusal_leaves (hc : Reachable verify c) :
    (∀ kind r name expected e d, c.receive verify kind r name expected = (.error e, d) → c.Leaves d r e) ∧
    (c.state = .faulted → ∀ calls, (run verify c calls).2 = c ∧ ∀ reply ∈ (run verify c calls).1,
      reply ≠ .started (.ok ()) ∧ ∀ value, reply ≠ .value (.ok value)) := by
  rcases hc.cases with rfl | ⟨tip, l, h⟩
  · refine ⟨fun kind r name expected e d hreceive => ?_, nofun⟩
    cases hreceive
    rfl
  · exact ⟨fun kind r name expected e d => h.leaves_of_receive,
      fun hfaulted => h.run_of_faulted (state_eq_faulted_iff.mp hfaulted)⟩

theorem refusal_leaves_sample :
    (Reachable Commitment.verify Sample.started ∧ Sample.started.Moved Sample.session Sample.unproved) ∧
    (Reachable Commitment.verify Sample.session ∧ Sample.session.Leaves Sample.faulted Sample.forked (.equivocation 1)) ∧
    Reachable Commitment.verify Sample.faulted ∧ Sample.faulted.state = .faulted ∧
    (run Commitment.verify Sample.faulted (Sample.calls ++ Sample.fork)).2 = Sample.faulted :=
  ⟨⟨Sample.started_reachable, (refusal_leaves Sample.started_reachable).1 _ _ _ _ _ _ Sample.receive_unproved⟩,
    ⟨Sample.session_reachable, (refusal_leaves Sample.session_reachable).1 _ _ _ _ _ _ Sample.receive_forked⟩,
    Sample.faulted_reachable, rfl, ((refusal_leaves Sample.faulted_reachable).2 rfl _).1⟩

end KeyTransparency.Session
