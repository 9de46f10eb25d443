import KeyTransparency.Message.Response
import KeyTransparency.Proofs.Basic
import Mathlib.Data.List.Chain

/-!
# Responses that are taken

* `consecutive_iff`: what consecutive epochs are, as numbers;
* `Response.validate_eq_ok_iff`, `Response.asProof_eq_ok_iff`,
  `Response.asHistory_eq_ok_iff`: which responses are valid, and which of them are the
  answer of a directory and of an auditor.
-/

namespace KeyTransparency

theorem consecutive_iff {l : List Snapshot} :
    consecutive l = true ↔ l.IsChain fun s t => t.epoch.toNat = s.epoch.toNat + 1 := by
  induction l with
  | nil => simp [consecutive]
  | cons s l ih =>
    cases l with
    | nil => simp [consecutive]
    | cons t l =>
      rw [List.isChain_cons_cons, ← ih, consecutive, Bool.and_eq_true, decide_eq_true_iff,
        Epoch.next?_eq_some_iff]

namespace Response

variable {r : Response} {body : Body} {run : List Snapshot}

theorem validate_eq_ok_iff : r.validate = .ok body ↔
    r.status.isOk = true ∧ r.body = some body ∧ body.snapshots ≠ [] ∧
      consecutive body.snapshots = true := by
  rw [validate]
  cases hs : r.status.isOk with
  | false => simp
  | true =>
    cases hb : r.body with
    | none => simp
    | some b =>
      simp only [Bool.not_true, Bool.false_eq_true, ↓reduceIte, Option.some.injEq, true_and]
      split
      · rename_i he
        rw [List.isEmpty_iff] at he
        simp only [reduceCtorEq, false_iff]
        rintro ⟨rfl, hne, -⟩
        exact hne he
      · rename_i he
        rw [List.isEmpty_iff] at he
        split
        · rename_i hc
          simp only [reduceCtorEq, false_iff]
          rintro ⟨rfl, -, hc'⟩
          simp [hc'] at hc
        · rename_i hc
          rw [Except.ok.injEq]
          exact ⟨fun h => h ▸ ⟨rfl, he, by simpa using hc⟩, And.left⟩

theorem asProof_eq_ok_iff {answer : MappingProof} : r.asProof = .ok answer ↔
    r.status.isOk = true ∧ r.body = some (.proof answer) ∧ answer.snapshots ≠ [] ∧
      consecutive answer.snapshots = true := by
  simp only [asProof, bind_eq_ok_iff]
  constructor
  · rintro ⟨body, hv, hb⟩
    cases body with
    | proof content =>
      cases hb
      exact validate_eq_ok_iff.mp hv
    | history snapshots => cases hb
  · intro h
    exact ⟨.proof answer, validate_eq_ok_iff.mpr h, rfl⟩

theorem asHistory_eq_ok_iff : r.asHistory = .ok run ↔
    r.status.isOk = true ∧ r.body = some (.history run) ∧ run ≠ [] ∧ consecutive run = true := by
  simp only [asHistory, bind_eq_ok_iff]
  constructor
  · rintro ⟨body, hv, hb⟩
    cases body with
    | proof content => cases hb
    | history snapshots =>
      cases hb
      exact validate_eq_ok_iff.mp hv
  · intro h
    exact ⟨.history run, validate_eq_ok_iff.mpr h, rfl⟩

end Response

end KeyTransparency
