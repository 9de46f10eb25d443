import KeyTransparency.Proofs.Client.Outcome

/-!
# Promises as evidence

A promise that a session holds can be held against the directory at any time (`Session.Evidence`):
the key that is pinned has signed it, and it was made under a snapshot that the session has seen.
This is checked once, against the last snapshot of the answer that brings the promise, which is
then held as well (`Tracks.evidence_of_receive`). Nothing else puts a promise in
(`promise?_of_step`), and what the evidence rests on is never given up (`Evidence.keeps`).

* `Session.promise_is_evidence`: every promise that is held is evidence, and stays so whatever
  is asked later.
-/

namespace KeyTransparency.Session

/-- The promise is about the name and signed with the key that is pinned, was made under the
snapshot that has been seen of its epoch, and is due at the epoch after. -/
structure Evidence (c : Session) (name : String) (p : Promise) : Prop where
  name : p.name = name
  signed : ∃ key, c.key? = some key ∧ p.hasValidSignature key = true
  under : ∃ s, c.observedAt? p.issuedAt = some s ∧ p.snapshotDigest = s.digest
  seen : ∃ latest, c.latest? = some latest ∧ p.issuedAt ≤ latest.epoch
  due : ∃ due, p.dueEpoch = some due ∧ due.toNat = p.issuedAt.toNat + 1

variable {verify : ProofVerifier} {c d : Session} {tip : ChainTip} {l : List Snapshot} {call : Call}
  {name : String} {p : Promise} {s last : Snapshot} {r : Response} {answer : MappingProof}
  {expected value : Option Bytes}

/-- A promise that a snapshot of the chain backs is evidence. -/
theorem Tracks.evidence_of_backs (h : c.Tracks tip l) (hs : c.observedAt? s.epoch = some s)
    (hb : p.Backs tip.key name s) : c.Evidence name p where
  name := hb.name
  signed := ⟨tip.key, h.holdsChain.pinned, hb.signed⟩
  under := ⟨s, hb.issuedAt ▸ hs, hb.snapshotDigest⟩
  seen := by
    refine ⟨tip.latest, h.holdsChain.isLatest, ?_⟩
    rw [hb.issuedAt]
    exact (h.holdsChain.held s.epoch).mp ⟨s, hs⟩
  due := by
    obtain ⟨due, hdue⟩ := hb.due
    exact ⟨due, hdue, Epoch.next?_eq_some_iff.mp hdue⟩

/-- What makes a promise evidence is kept. -/
theorem Evidence.keeps (h : c.Evidence name p) (hk : c.Keeps d) : d.Evidence name p where
  name := h.name
  signed := by
    obtain ⟨key, hkey, hsigned⟩ := h.signed
    exact ⟨key, hk.key.trans hkey, hsigned⟩
  under := by
    obtain ⟨s, hs, hdigest⟩ := h.under
    exact ⟨s, hk.observed p.issuedAt s hs, hdigest⟩
  seen := by
    obtain ⟨latest, hlatest, hle⟩ := h.seen
    obtain ⟨later, hlater, hle'⟩ := hk.latest latest hlatest
    exact ⟨later, hlater, UInt64.le_trans hle hle'⟩
  due := h.due

/-! ## One call -/

/-- A promise that is held after a call was held before, or is what the call was promised. -/
theorem promise?_of_step (h : (step verify c call).2.promise? name = some p) :
    c.promise? name = some p ∨ Promised verify name p call (step verify c call).1 := by
  rcases promise?_step verify c call name with hsame | ⟨q, hq, hnext⟩ | ⟨q, e, hfound, hget, hdue⟩
  · left
    rw [← hsame, h]
  · right
    rw [h, Option.some.injEq] at hnext
    exact hnext ▸ hq
  · -- A promise that is kept is not held any more.
    exfalso
    obtain ⟨r, expected, answer, last, rfl, hreply, ha, hl, rfl⟩ := hfound
    rw [step, Reply.value.injEq] at hreply
    rcases receive_keyLookup_of_eq_ok (Prod.ext hreply rfl) ha hl with ⟨hn, -⟩ | ⟨-, -, -, -, hd⟩
    · exact hn q hget hdue
    · rw [step, promise?, hd, Std.ExtTreeMap.getElem?_erase_self] at h
      cases h

/-- The snapshot that a promise is checked against is held once the promise is. -/
theorem Tracks.evidence_of_receive (h : c.Tracks tip l)
    (hr : c.receive verify .registration r name expected = (.ok value, d)) (ha : r.asProof = .ok answer)
    (hl : answer.latest? = some last) (hproof : verify answer.proof last.root name = .ok none)
    (hanswer : answer.promise = some p) : d.Evidence name p := by
  obtain ⟨answer', taken, last', promise, -, -, ha', ht, hl', hv, hs⟩ := receive_eq_ok_iff.mp hr
  rw [ha, Except.ok.injEq] at ha'
  subst ha'
  rw [hl, Option.some.injEq] at hl'
  subst hl'
  obtain ⟨fresh, -, htaken, hheld⟩ := h.observedAt?_of_takeSnapshots ht
  have hlast : taken.observedAt? last.epoch = some last := hheld last (List.mem_of_getLast? hl)
  obtain ⟨promises, rfl⟩ := settle_eq_ok hs
  have htracks : Tracks { taken with promises := promises } (tip.moveTo fresh) (l ++ fresh) :=
    ⟨htaken.chain, htaken.shows, htaken.tip⟩
  rcases readValue_registration_eq_ok_iff.mp hv with ⟨v, hvalue, -⟩ | ⟨q, -, hcheck, -⟩
  · rw [hproof] at hvalue
    cases hvalue
  · obtain ⟨hq, hb⟩ := (checkPromise_eq_ok_iff_backs htaken.holdsChain.pinned).mp hcheck
    rw [hanswer, Option.some.injEq] at hq
    subst hq
    exact htracks.evidence_of_backs hlast hb

theorem Promised.evidence (h : c.Tracks tip l) (hp : Promised verify name p call (step verify c call).1) :
    (step verify c call).2.Evidence name p := by
  obtain ⟨r, expected, answer, last, rfl, hreply, ha, hl, hproof, hanswer⟩ := hp
  rw [step, Reply.value.injEq] at hreply
  exact h.evidence_of_receive (Prod.ext hreply rfl) ha hl hproof hanswer

/-! ## Runs -/

theorem Tracks.keeps_run (h : c.Tracks tip l) (verify : ProofVerifier) (calls : List Call) :
    c.Keeps (Session.run verify c calls).2 := by
  obtain ⟨tip', fresh, hk, ht, hf⟩ := h.run verify calls
  exact h.keeps ht hk hf

/-- Every promise that is held is evidence. -/
def HoldsEvidence (c : Session) : Prop := ∀ name p, c.promise? name = some p → c.Evidence name p

theorem HoldsEvidence.step (h : c.HoldsEvidence) (hc : Reachable verify c) (call : Call) :
    (step verify c call).2.HoldsEvidence := by
  intro name p hp
  rcases hc.cases with rfl | ⟨tip, l, ht⟩
  · -- A session that has not been started has no promises, and takes none.
    rcases promise?_of_step hp with hheld | ⟨r, expected, answer, last, rfl, hreply, -⟩
    · cases hheld
    · cases hreply
  · rcases promise?_of_step hp with hheld | hpromised
    · exact (h name p hheld).keeps (ht.keeps_run verify [call])
    · exact hpromised.evidence ht

theorem Reachable.holdsEvidence (hc : Reachable verify c) : c.HoldsEvidence := by
  obtain ⟨calls, rfl⟩ := hc
  have hempty : Reachable verify .empty ∧ Session.empty.HoldsEvidence := ⟨⟨[], rfl⟩, nofun⟩
  refine (runCalls_induction (P := fun c => Reachable verify c ∧ c.HoldsEvidence) ?_ calls hempty).2
  exact fun c call h => ⟨h.1.run [call], h.2.step h.1 call⟩

/-- Of every session that can come about: a promise that it holds for a name is about that name,
is signed with the key pinned, was made at an epoch that has been seen and under the snapshot
that has been seen of it, and is due at the epoch after. Whatever is asked later, answers that
move the session, are refused or fault it among them, leave all of this true. -/
theorem promise_is_evidence (hc : Reachable verify c) (hp : c.promise? name = some p) (calls : List Call) :
    (run verify c calls).2.Evidence name p := by
  have h := hc.holdsEvidence name p hp
  rcases hc.cases with rfl | ⟨tip, l, ht⟩
  · cases hp
  · exact h.keeps (ht.keeps_run verify calls)

/-- The name is looked up when the promise is due, and the session is done with the promise. -/
theorem promise_is_evidence_sample :
    Reachable Commitment.verify Sample.promisee ∧ Sample.promisee.promise? "alice" = some Sample.promised ∧
    (run Commitment.verify Sample.promisee
      [.receive .keyLookup (.ofProof Sample.found) "alice" none]).2.Evidence "alice" Sample.promised :=
  ⟨Sample.promisee_reachable, Sample.promise?_promisee,
    promise_is_evidence Sample.promisee_reachable Sample.promise?_promisee _⟩

end KeyTransparency.Session
