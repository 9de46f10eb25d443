import KeyTransparency.Proofs.Chain.Valid
import KeyTransparency.Proofs.Message.Response

/-!
# Runs of epochs

The snapshots of a response are looked at in pairs of neighbours (`consecutive`). What the
pairs amount to is a run (`RunsFrom`): the snapshots are at least one, and the epoch of each is
that of the first one and its position, added up as numbers. So no run comes around to epoch 0
(`RunsFrom.length_le`), and its last snapshot is the one of the highest epoch
(`RunsFrom.le_latest`).

* `responses_hold_runs`: a response is taken exactly if it is a success that holds a run, and
  what it is refused for otherwise.
-/

namespace KeyTransparency

/-- The snapshots start with `first`, and each has the epoch of `first` plus its position. -/
structure RunsFrom (first : Snapshot) (l : List Snapshot) : Prop where
  head : l[0]? = some first
  epoch : ∀ (i : Nat) (s : Snapshot), l[i]? = some s → s.epoch.toNat = first.epoch.toNat + i

variable {first s t : Snapshot} {l : List Snapshot}

/-- By induction on the position: each epoch is the one after that of the position before. -/
theorem RunsFrom.of_isChain (h0 : l[0]? = some first)
    (h : l.IsChain fun s t => t.epoch.toNat = s.epoch.toNat + 1) : RunsFrom first l where
  head := h0
  epoch i := by
    induction i with
    | zero =>
      intro s hs
      rw [h0, Option.some.injEq] at hs
      rw [hs, Nat.add_zero]
    | succ i ih =>
      intro t ht
      obtain ⟨hi, rfl⟩ := List.getElem?_eq_some_iff.mp ht
      have hbefore := ih l[i] (List.getElem?_eq_getElem (Nat.lt_of_succ_lt hi))
      have hlink := h.getElem i hi
      omega

namespace RunsFrom

variable (h : RunsFrom first l)

include h

theorem ne_nil : l ≠ [] := by
  rintro rfl
  cases h.head

theorem isChain : l.IsChain fun s t => t.epoch.toNat = s.epoch.toNat + 1 := by
  rw [List.isChain_iff_getElem]
  intro i hi
  have hs := h.epoch i _ (List.getElem?_eq_getElem (Nat.lt_of_succ_lt hi))
  have ht := h.epoch (i + 1) _ (List.getElem?_eq_getElem hi)
  omega

/-- The epochs of a run are all below the number of epochs that there are. -/
theorem length_le : first.epoch.toNat + l.length ≤ UInt64.size := by
  have hs := List.getLast?_eq_getLast_of_ne_nil h.ne_nil
  have hlt := (l.getLast h.ne_nil).epoch.toNat_lt_size
  rw [List.getLast?_eq_getElem?] at hs
  have hlast := h.epoch _ _ hs
  omega

/-- No snapshot of a run has a higher epoch than the last one, and no other has the same. -/
theorem le_latest (hs : l.getLast? = some s) (ht : t ∈ l) :
    t.epoch ≤ s.epoch ∧ (t.epoch = s.epoch → t = s) := by
  rw [List.getLast?_eq_getElem?] at hs
  obtain ⟨i, hi⟩ := List.mem_iff_getElem?.mp ht
  have hlt : i < l.length := (List.getElem?_eq_some_iff.mp hi).1
  have hlast := h.epoch _ s hs
  have hepoch := h.epoch i t hi
  rw [UInt64.le_iff_toNat_le, ← UInt64.toNat_inj]
  refine ⟨by omega, fun heq => ?_⟩
  have hpos : i = l.length - 1 := by omega
  rw [hpos, hs, Option.some.injEq] at hi
  exact hi.symm

end RunsFrom

/-- Pairs of neighbours are enough to know a run. -/
theorem exists_runsFrom_iff : (∃ first, RunsFrom first l) ↔ l ≠ [] ∧ consecutive l = true := by
  rw [consecutive_iff]
  constructor
  · rintro ⟨first, h⟩
    exact ⟨h.ne_nil, h.isChain⟩
  · rintro ⟨hne, hchain⟩
    have h0 := List.getElem?_eq_getElem (List.length_pos_iff.mpr hne)
    exact ⟨_, .of_isChain h0 hchain⟩

namespace Response

variable {r : Response} {body : Body} {answer : MappingProof} {run : List Snapshot} {e : MessageError}

theorem validate_eq_ok_iff_runsFrom : r.validate = .ok body ↔
    r.status = .ok ∧ r.body = some body ∧ ∃ first, RunsFrom first body.snapshots := by
  rw [validate_eq_ok_iff, exists_runsFrom_iff, Status.isOk, decide_eq_true_iff]

/-- A failure is told as such, whatever it carries. -/
theorem validate_of_status_ne (h : r.status ≠ .ok) : r.validate = .error (.failure r.status) := by
  have hs : r.status.isOk = false := decide_eq_false h
  rw [validate, hs]
  rfl

/-- A success is refused for its shape only. -/
theorem exists_fault_of_validate (hs : r.status = .ok) (h : r.validate = .error e) :
    ∃ fault, e = .malformed fault := by
  have hok : r.status.isOk = true := decide_eq_true hs
  simp only [validate, hok, Bool.not_true, Bool.false_eq_true, ↓reduceIte] at h
  split at h
  · cases h
    exact ⟨_, rfl⟩
  · split at h
    · cases h
      exact ⟨_, rfl⟩
    · split at h
      · cases h
        exact ⟨_, rfl⟩
      · cases h

theorem asProof_eq_ok_iff_validate : r.asProof = .ok answer ↔ r.validate = .ok (.proof answer) := by
  rw [asProof_eq_ok_iff, validate_eq_ok_iff]
  rfl

theorem asHistory_eq_ok_iff_validate : r.asHistory = .ok run ↔ r.validate = .ok (.history run) := by
  rw [asHistory_eq_ok_iff, validate_eq_ok_iff]
  rfl

theorem asProof_eq_error_iff : r.asProof = .error e ↔
    r.validate = .error e ∨ (∃ run, r.validate = .ok (.history run)) ∧ e = .malformed .notAProof := by
  rw [asProof]
  rcases r.validate with e' | content | run
  · simp [bind, Except.bind]
  · simp [bind, Except.bind, pure, Except.pure]
  · simp [bind, Except.bind, eq_comm]

theorem asHistory_eq_error_iff : r.asHistory = .error e ↔
    r.validate = .error e ∨ (∃ answer, r.validate = .ok (.proof answer)) ∧ e = .malformed .notAHistory := by
  rw [asHistory]
  rcases r.validate with e' | content | run
  · simp [bind, Except.bind]
  · simp [bind, Except.bind, eq_comm]
  · simp [bind, Except.bind, pure, Except.pure]

end Response

namespace Sample

/-- The answer of a directory with the snapshots of two epochs. -/
def bridging : MappingProof := ⟨[Sample.first, left], [], none⟩

/-- The last epoch there is, and epoch 0 behind it, as if epochs came around. -/
def straddling : List Snapshot := [{ left with epoch := Epoch.last }, Sample.first]

theorem bridging_runsFrom : RunsFrom Sample.first bridging.snapshots :=
  .of_isChain rfl (.cons_cons rfl (.singleton left))

theorem not_runsFrom_straddling : ¬ ∃ s, RunsFrom s straddling := by
  rintro ⟨s, h⟩
  have hfirst : 0 = s.epoch.toNat + 1 := h.epoch 1 Sample.first rfl
  omega

end Sample

/-- A response is taken exactly if it is a success with a body, of which the snapshots are at
least one and have the epochs that follow that of the first, as numbers, so that they end
before the epochs do. A failure is told as such even where it carries a body, and whatever else
is refused is malformed. The answer of a directory, and of an auditor, is taken exactly if the
response is and has that kind of body. The latest snapshot of a directory's answer is the only
one of the highest epoch. -/
theorem responses_hold_runs (r : Response) :
    (∀ body, r.validate = .ok body ↔
      r.status = .ok ∧ r.body = some body ∧ ∃ first, RunsFrom first body.snapshots) ∧
    (∀ body, r.validate = .ok body → ∃ first, body.snapshots[0]? = some first ∧
      first.epoch.toNat + body.snapshots.length ≤ UInt64.size) ∧
    (r.status ≠ .ok → r.validate = .error (.failure r.status)) ∧
    (∀ e, r.status = .ok → r.validate = .error e → ∃ fault, e = .malformed fault) ∧
    (∀ answer, r.asProof = .ok answer ↔ r.validate = .ok (.proof answer)) ∧
    (∀ run, r.asHistory = .ok run ↔ r.validate = .ok (.history run)) ∧
    (∀ e, r.asProof = .error e ↔
      r.validate = .error e ∨ (∃ run, r.validate = .ok (.history run)) ∧ e = .malformed .notAProof) ∧
    (∀ e, r.asHistory = .error e ↔
      r.validate = .error e ∨ (∃ answer, r.validate = .ok (.proof answer)) ∧ e = .malformed .notAHistory) ∧
    ∀ answer, r.asProof = .ok answer → ∃ s, answer.latest? = some s ∧ s ∈ answer.snapshots ∧
      ∀ t ∈ answer.snapshots, t.epoch ≤ s.epoch ∧ (t.epoch = s.epoch → t = s) := by
  refine ⟨fun _ => Response.validate_eq_ok_iff_runsFrom, fun body hv => ?_, Response.validate_of_status_ne,
    fun _ => Response.exists_fault_of_validate, fun _ => Response.asProof_eq_ok_iff_validate,
    fun _ => Response.asHistory_eq_ok_iff_validate, fun _ => Response.asProof_eq_error_iff,
    fun _ => Response.asHistory_eq_error_iff, fun answer hp => ?_⟩
  · obtain ⟨-, -, first, hrun⟩ := Response.validate_eq_ok_iff_runsFrom.mp hv
    exact ⟨first, hrun.head, hrun.length_le⟩
  · rw [Response.asProof_eq_ok_iff_validate, Response.validate_eq_ok_iff_runsFrom] at hp
    obtain ⟨-, -, first, hrun⟩ := hp
    have hrun : RunsFrom first answer.snapshots := hrun
    have hlast := List.getLast?_eq_getLast_of_ne_nil hrun.ne_nil
    exact ⟨_, hlast, List.mem_of_getLast? hlast, fun t => hrun.le_latest hlast⟩

theorem responses_hold_runs_sample :
    (⟨.keyMismatch, some (.history [Sample.first])⟩ : Response).validate = .error (.failure .keyMismatch) ∧
    (∃ fault, (Response.ofHistory Sample.straddling).validate = .error (.malformed fault)) ∧
    (Response.ofProof Sample.bridging).asProof = .ok Sample.bridging ∧
    ∃ s, Sample.bridging.latest? = some s ∧ ∀ t ∈ Sample.bridging.snapshots, t.epoch ≤ s.epoch := by
  have hfailure := responses_hold_runs ⟨.keyMismatch, some (.history [Sample.first])⟩
  have hstraddling := responses_hold_runs (.ofHistory Sample.straddling)
  have hbridging := responses_hold_runs (.ofProof Sample.bridging)
  refine ⟨hfailure.2.2.1 (by decide), ?_, ?_⟩
  · obtain ⟨haccepts, -, -, hfault, -⟩ := hstraddling
    cases hv : (Response.ofHistory Sample.straddling).validate with
    | error e =>
      obtain ⟨fault, rfl⟩ := hfault e rfl hv
      exact ⟨fault, rfl⟩
    | ok body =>
      obtain ⟨-, hbody, hrun⟩ := (haccepts body).mp hv
      cases hbody
      exact absurd hrun Sample.not_runsFrom_straddling
  · obtain ⟨haccepts, -, -, -, hproof, -, -, -, hlatest⟩ := hbridging
    have hv := (haccepts (.proof Sample.bridging)).mpr ⟨rfl, rfl, _, Sample.bridging_runsFrom⟩
    have hp := (hproof Sample.bridging).mpr hv
    obtain ⟨s, hs, -, hle⟩ := hlatest Sample.bridging hp
    exact ⟨hp, s, hs, fun t ht => (hle t ht).1⟩

end KeyTransparency
