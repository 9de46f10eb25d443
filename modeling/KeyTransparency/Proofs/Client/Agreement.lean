import KeyTransparency.Proofs.Client.Receive
import KeyTransparency.Proofs.Client.Verdict
import KeyTransparency.Proofs.Observer
import KeyTransparency.Proofs.Simulation.Commitment

/-!
# Two sessions and one auditor

Two sessions follow the same directory, and do not know of each other. Each of them
passes, at some time, an answer of the same audit log (`Session.Passes`). From then on
either of them holds the snapshots of the log, up to the end of what was compared
(`Passes.agreeAt_or_collideAt`), and so the snapshots of the other. What a lookup finds
(`Session.Finds`) rests on a snapshot that the session holds, whenever it was made
(`Finds.observedAt?`), and on a proof that belongs to its root.

* `Session.lookups_agree`: the directory cannot tell the two sessions different values of
  a name at one epoch, whatever proofs it makes up.
-/

namespace KeyTransparency.Session

/-- At some time in its run, a session whose latest snapshot was `latest` passed what the
log has of the epochs from `a` to `b`, and `a` was not beyond what the session could
compare. -/
def Passes (verify : ProofVerifier) (calls : List Call) (log : AuditLog) (id : DirectoryId) (a b : Epoch)
    (latest : Snapshot) : Prop :=
  ∃ n, (run verify .empty (calls.take n)).2.latest? = some latest ∧
    a.toNat ≤ latest.epoch.toNat + 1 ∧
    (run verify .empty (calls.take n)).2.crossCheck (log.answer ⟨id, a, b⟩) = .ok ()

/-- At some time in its run, a session looked the name up, and took from `answer`, whose
last snapshot is that of the epoch `e`, that the name has the value. -/
def Finds (verify : ProofVerifier) (calls : List Call) (name : String) (e : Epoch) (answer : MappingProof)
    (value : Option Bytes) : Prop :=
  ∃ (n : Nat) (r : Response) (expected : Option Bytes) (last : Snapshot),
    calls[n]? = some (.receive .keyLookup r name expected) ∧
    (run verify .empty calls).1[n]? = some (.value (.ok value)) ∧
    r.asProof = .ok answer ∧ answer.latest? = some last ∧ last.epoch = e

variable {verify : ProofVerifier} {c : Session} {tip : ChainTip} {l : List Snapshot} {calls : List Call}
  {log : AuditLog} {logCalls : List AuditLog.Call} {id : DirectoryId} {a b e : Epoch} {latest : Snapshot}
  {name : String} {answer : MappingProof} {value : Option Bytes}

/-- A reachable session that has a latest snapshot tracks a chain that ends in it. -/
theorem Reachable.exists_tracks (hc : Reachable verify c) (hl : c.latest? = some latest) :
    ∃ tip l, c.Tracks tip l ∧ tip.latest = latest := by
  rcases hc.cases with rfl | ⟨tip, l, h⟩
  · cases hl
  · rw [latest?, h.tip, Option.map_some, Option.some.injEq] at hl
    exact ⟨tip, l, h, hl⟩

/-- What a session holds at some time in a run, it holds at the end. -/
theorem observedAt?_run_of_take {n : Nat} {s : Snapshot}
    (hs : (run verify .empty (calls.take n)).2.observedAt? e = some s) :
    (run verify .empty calls).2.observedAt? e = some s := by
  have h := (Observer.Later.session verify _ (calls.drop n)).view_eq ⟨calls.take n, rfl⟩ hs
  rw [run, run, runCalls_take_drop] at h
  exact h

/-- What a log holds at some time in a run, it holds at the end. -/
theorem view_run_of_take {n : Nat} {s : Snapshot} (hl : log.Reachable)
    (hs : (Observer.log (log.run (logCalls.take n)).2 id).view e = some s) :
    (Observer.log (log.run logCalls).2 id).view e = some s := by
  have hr : Observer.Reachable (.log (log.run (logCalls.take n)).2 id) := AuditLog.Reachable.run hl _
  have h := (Observer.Later.log _ id (logCalls.drop n)).view_eq hr hs
  rw [AuditLog.run, AuditLog.run, runCalls_take_drop] at h
  exact h

/-- A session that passes the answer of a log agrees with the log at every epoch compared. -/
theorem Tracks.agreeAt_or_collideAt_of_crossCheck (hc : c.Tracks tip l) (hl : log.Reachable)
    (ha : a.toNat ≤ tip.latest.epoch.toNat + 1) (hok : c.crossCheck (log.answer ⟨id, a, b⟩) = .ok ()) :
    (∀ e, e ≤ b → e ≤ tip.latest.epoch → View.AgreeAt c.observedAt? (Observer.log log id).view e) ∨
      ∃ e, View.CollideAt c.observedAt? (Observer.log log id).view e := by
  obtain ⟨key, run, -, hrun, -, hfits⟩ := crossCheck_eq_ok_iff.mp hok
  obtain ⟨h, hh, hab, hb⟩ := AuditLog.of_asHistory_answer hrun
  have hview : (Observer.log log id).view = h.at? := by
    funext e
    show log.histories[id]?.bind (·.at? e) = h.at? e
    rw [AuditLog.history_eq_ok_iff.mp hh, Option.bind_some]
  have hs : h.Sound := (hl.sound id h (AuditLog.history_eq_ok_iff.mp hh)).1
  have hr := hs.isRange hab hb
  rw [AuditLog.answer_eq_ofHistory hh (hs.range?_eq_some hab hb)] at hrun
  obtain ⟨-, hbody, -, -⟩ := Response.asHistory_eq_ok_iff.mp hrun
  cases hbody
  rw [hview]
  rcases agreeAt_or_collideAt_of_fits hc hs hr hab hb ha hfits with hall | ⟨e, -, -, he⟩
  · exact .inl hall
  · exact .inr ⟨e, he⟩

/-- The same, of the session and the log at the end of their runs. -/
theorem Passes.agreeAt_or_collideAt {n : Nat} (hl : log.Reachable)
    (h : Passes verify calls (log.run (logCalls.take n)).2 id a b latest) :
    (∀ e, e ≤ b → e ≤ latest.epoch →
      View.AgreeAt (run verify .empty calls).2.observedAt? (Observer.log (log.run logCalls).2 id).view e) ∨
    ∃ e, View.CollideAt (run verify .empty calls).2.observedAt?
      (Observer.log (log.run logCalls).2 id).view e := by
  obtain ⟨m, hlatest, ha, hok⟩ := h
  obtain ⟨tip, l, hc, rfl⟩ := Reachable.exists_tracks ⟨calls.take m, rfl⟩ hlatest
  rcases hc.agreeAt_or_collideAt_of_crossCheck (hl.run (logCalls.take n)) ha hok with hall | ⟨e, he⟩
  · refine .inl fun e heb hen => ?_
    exact (hall e heb hen).mono (fun _ _ => observedAt?_run_of_take) fun _ _ => view_run_of_take hl
  · exact .inr ⟨e, he.mono (fun _ _ => observedAt?_run_of_take) fun _ _ => view_run_of_take hl⟩

/-- What is found rests on a proof that belongs to the snapshot held of the epoch. -/
theorem Finds.observedAt? (h : Finds verify calls name e answer value) :
    ∃ last, (run verify .empty calls).2.observedAt? e = some last ∧
      verify answer.proof last.root name = .ok value := by
  obtain ⟨n, r, expected, last, hcall, hreply, ha, hlast, rfl⟩ := h
  obtain ⟨hn, hnext⟩ := runCalls_take_succ (step verify) .empty hcall
  rw [run, hn, step, Option.some.injEq, Reply.value.injEq] at hreply
  obtain ⟨answer', taken, last', promise, -, htip, ha', ht, hlast', hv, hs⟩ :=
    receive_eq_ok_iff.mp (Prod.ext hreply rfl)
  rw [ha, Except.ok.injEq] at ha'
  subst ha'
  rw [hlast, Option.some.injEq] at hlast'
  subst hlast'
  refine ⟨last, observedAt?_run_of_take (n := n + 1) ?_, (readValue_keyLookup_eq_ok_iff.mp hv).1⟩
  rcases Reachable.cases ⟨calls.take n, rfl⟩ with hempty | ⟨tip, l, hc⟩
  · rw [run] at hempty
    rw [hempty] at htip
    cases htip
  · obtain ⟨fresh, -, -, hheld⟩ := hc.observedAt?_of_takeSnapshots ht
    obtain ⟨promises, hd⟩ := settle_eq_ok hs
    rw [run, hnext.trans hd]
    exact hheld last (List.mem_of_getLast? hlast)

namespace Sample

open Directory.Sample (key entries first second)

/-- A log takes what the directory published. -/
def audit : List AuditLog.Call := [.start "directory:1" key.publicKey [first, second]]

/-- What the log then has of the directory. -/
def history : History := ⟨"directory:1", ⟨key.publicKey, second⟩, [first, second]⟩

/-- An answer that starts with a snapshot that the session has seen before. -/
def foundAgain : MappingProof := ⟨[first, second], Commitment.proof ⟨[], entries⟩, none⟩

/-- The lookup once more. -/
def lookupsAgain : List Call := lookups ++ [.receive .keyLookup (.ofProof foundAgain) "alice" (some [1])]

theorem history_of_audit : (AuditLog.empty.run (audit.take 1)).2.history first.directoryId = .ok history := by
  have hs := AuditLog.empty.start_eq_of_validChain "directory:1"
    Std.ExtTreeMap.getElem?_empty validChain
  rw [AuditLog.history_eq_ok_iff, audit]
  simp only [AuditLog.run, List.take, runCalls, AuditLog.step, hs]
  exact Std.ExtTreeMap.getElem?_insert_self

theorem run_lookupsAgain : run Commitment.verify .empty lookupsAgain =
    ([.started (.ok ()), .value (.ok (some [1])), .value (.ok (some [1]))], follower) := by
  have hknown : ∀ s ∈ [first, second], s ∈ [first, second] := fun _ hs => hs
  have htaken := follower_tracks.takeSnapshots_eq hknown (.singleton second)
  have hreceive : receive Commitment.verify follower .keyLookup (.ofProof foundAgain) "alice" (some [1]) =
      (.ok (some [1]), follower) :=
    receive_eq_ok_iff.mpr ⟨foundAgain, _, second, none, rfl, rfl, rfl, htaken, rfl,
      readValue_keyLookup_eq_ok_iff.mpr ⟨verify_found, rfl⟩, rfl⟩
  rw [lookupsAgain, run, runCalls_append, ← run, run_lookups]
  simp only [runCalls, step, hreceive]
  rfl

theorem crossCheck_follower {a : Epoch} (ha : a ≤ 1) :
    follower.crossCheck ((AuditLog.empty.run (audit.take 1)).2.answer ⟨first.directoryId, a, 1⟩) = .ok () := by
  have hs : history.Sound := ⟨validChain, rfl⟩
  refine crossCheck_answer_of_agreeAt follower_tracks rfl history_of_audit hs ha (UInt64.le_refl 1) fun e he _ => ?_
  obtain ⟨s, hs'⟩ := hs.exists_at? he
  exact ⟨s, (follower_tracks.shows e).trans hs', hs'⟩

end Sample

/-- Two sessions that each passed an answer of the same log cannot be told different
values of a name at an epoch of what both compared, by whatever proofs, and whenever they
look it up. The one exception are two proofs, or two snapshots of a session and the log,
that differ and have the same hash. -/
theorem lookups_agree {calls₁ calls₂ : List Call} {n₁ n₂ : Nat} {a₁ b₁ a₂ b₂ : Epoch}
    {latest₁ latest₂ : Snapshot} {answer₁ answer₂ : MappingProof} {value₁ value₂ : Option Bytes}
    (hl : log.Reachable)
    (h₁ : Passes Commitment.verify calls₁ (log.run (logCalls.take n₁)).2 id a₁ b₁ latest₁)
    (h₂ : Passes Commitment.verify calls₂ (log.run (logCalls.take n₂)).2 id a₂ b₂ latest₂)
    (he₁ : e ≤ b₁ ∧ e ≤ latest₁.epoch) (he₂ : e ≤ b₂ ∧ e ≤ latest₂.epoch)
    (hv₁ : Finds Commitment.verify calls₁ name e answer₁ value₁)
    (hv₂ : Finds Commitment.verify calls₂ name e answer₂ value₂) :
    value₁ = value₂ ∨
    (answer₁.proof ≠ answer₂.proof ∧ Digest.ofData answer₁.proof = Digest.ofData answer₂.proof) ∨
    ∃ calls ∈ [calls₁, calls₂], ∃ e,
      View.CollideAt (run Commitment.verify .empty calls).2.observedAt?
        (Observer.log (log.run logCalls).2 id).view e := by
  rcases h₁.agreeAt_or_collideAt hl with hall₁ | hcol
  swap
  · exact .inr (.inr ⟨calls₁, by simp, hcol⟩)
  rcases h₂.agreeAt_or_collideAt hl with hall₂ | hcol
  swap
  · exact .inr (.inr ⟨calls₂, by simp, hcol⟩)
  -- Both hold the snapshot that the log has of the epoch.
  obtain ⟨s, hs₁, ht₁⟩ := hall₁ e he₁.1 he₁.2
  obtain ⟨t, hs₂, ht₂⟩ := hall₂ e he₂.1 he₂.2
  rw [ht₁, Option.some.injEq] at ht₂
  subst ht₂
  obtain ⟨last₁, hlast₁, hp₁⟩ := hv₁.observedAt?
  rw [hs₁, Option.some.injEq] at hlast₁
  subst hlast₁
  obtain ⟨last₂, hlast₂, hp₂⟩ := hv₂.observedAt?
  rw [hs₂, Option.some.injEq] at hlast₂
  subst hlast₂
  by_cases hp : answer₁.proof = answer₂.proof
  · rw [hp, hp₂, Except.ok.injEq] at hp₁
    exact .inl hp₁.symm
  · have hd := (Commitment.digest_eq_of_verify hp₁).trans (Commitment.digest_eq_of_verify hp₂).symm
    exact .inr (.inl ⟨hp, hd⟩)

theorem lookups_agree_sample :
    Passes Commitment.verify Sample.lookups (AuditLog.empty.run (Sample.audit.take 1)).2
      Directory.Sample.first.directoryId 0 1 Directory.Sample.second ∧
    Passes Commitment.verify Sample.lookupsAgain (AuditLog.empty.run (Sample.audit.take 1)).2
      Directory.Sample.first.directoryId 1 1 Directory.Sample.second ∧
    Finds Commitment.verify Sample.lookups "alice" 1 Sample.found (some [1]) ∧
    Finds Commitment.verify Sample.lookupsAgain "alice" 1 Sample.foundAgain (some [1]) ∧
    ((some [1] : Option Bytes) = some [1] ∨
      (Sample.found.proof ≠ Sample.foundAgain.proof ∧
        Digest.ofData Sample.found.proof = Digest.ofData Sample.foundAgain.proof) ∨
      ∃ calls ∈ [Sample.lookups, Sample.lookupsAgain], ∃ e,
        View.CollideAt (run Commitment.verify .empty calls).2.observedAt?
          (Observer.log (AuditLog.empty.run Sample.audit).2 Directory.Sample.first.directoryId).view e) := by
  have h₁ : Passes Commitment.verify Sample.lookups (AuditLog.empty.run (Sample.audit.take 1)).2
      Directory.Sample.first.directoryId 0 1 Directory.Sample.second := by
    have hr : (run Commitment.verify .empty (Sample.lookups.take 2)).2 = Sample.follower :=
      congrArg Prod.snd Sample.run_lookups
    exact ⟨2, by rw [hr]; rfl, by decide, by rw [hr]; exact Sample.crossCheck_follower (by decide)⟩
  have h₂ : Passes Commitment.verify Sample.lookupsAgain (AuditLog.empty.run (Sample.audit.take 1)).2
      Directory.Sample.first.directoryId 1 1 Directory.Sample.second := by
    have hr : (run Commitment.verify .empty (Sample.lookupsAgain.take 3)).2 = Sample.follower :=
      congrArg Prod.snd Sample.run_lookupsAgain
    exact ⟨3, by rw [hr]; rfl, by decide, by rw [hr]; exact Sample.crossCheck_follower (by decide)⟩
  have hv₁ : Finds Commitment.verify Sample.lookups "alice" 1 Sample.found (some [1]) :=
    ⟨1, _, none, _, rfl, by rw [Sample.run_lookups]; rfl, rfl, rfl, rfl⟩
  have hv₂ : Finds Commitment.verify Sample.lookupsAgain "alice" 1 Sample.foundAgain (some [1]) :=
    ⟨2, _, some [1], _, rfl, by rw [Sample.run_lookupsAgain]; rfl, rfl, rfl, rfl⟩
  have he : (1 : Epoch) ≤ 1 ∧ 1 ≤ Directory.Sample.second.epoch := ⟨UInt64.le_refl 1, UInt64.le_refl 1⟩
  exact ⟨h₁, h₂, hv₁, hv₂, lookups_agree AuditLog.reachable_empty h₁ h₂ he he hv₁ hv₂⟩

end KeyTransparency.Session
