import KeyTransparency.Proofs.Client.Verdict

/-!
# The verdict on any run

What a session says of snapshots that an auditor shows it is decided in a fixed order: by the
run itself, which has to be signed and linked (`SignedRun`); by the epochs of both, at the
first of which they may differ (`Session.FirstDiffersAt`); and by the link between them, where
the run starts just after what the session has seen (`Session.BreaksAfter`).

Of the links, no other can be missing. What a session has seen is a chain without gaps, so
that a run which is the same where the two overlap has the links of that chain
(`Session.Tracks.breaksFromSeen_iff`, `Session.Tracks.breaksToSeen?_eq_none`).

* `Session.crossCheck_verdict`: which runs pass, and what is said of the others.
-/

namespace KeyTransparency

/-- The snapshots are signed with `key`, and each follows the one before it. A first one of
epoch 0 links to nothing. -/
structure SignedRun (key : PublicKey) (run : List Snapshot) : Prop where
  initial : ∀ s ∈ run.head?, s.epoch = 0 → s.previous = Digest.zero
  signed : ∀ s ∈ run, s.hasValidSignature key = true
  linked : run.IsChain fun s t => t.epoch.toNat = s.epoch.toNat + 1 ∧ t.previous = s.digest

theorem SignedRun.follows {key : PublicKey} {run : List Snapshot} (h : SignedRun key run) :
    run.IsChain (Snapshot.Follows key) :=
  h.linked.imp_of_mem_imp fun _ t _ ht hst => ⟨hst.1, hst.2, h.signed t ht⟩

theorem checkAuditorRun_eq_ok_iff_signedRun {key : PublicKey} {run : List Snapshot} :
    checkAuditorRun key run = .ok () ↔ SignedRun key run := by
  cases run with
  | nil => exact ⟨fun _ => ⟨nofun, nofun, .nil⟩, fun _ => rfl⟩
  | cons first rest =>
    rw [checkAuditorRun_eq_ok_iff]
    constructor
    · rintro ⟨hinitial, hsigned, hlinked⟩
      refine ⟨fun s hs => ?_, fun s hs => ?_, hlinked.imp fun _ _ hst => ⟨hst.epoch, hst.previous⟩⟩
      · cases hs
        exact hinitial
      · rcases List.mem_iff_getElem.mp hs with ⟨_ | i, hi, rfl⟩
        · exact hsigned
        · exact (hlinked.getElem i hi).signed
    · intro h
      exact ⟨h.initial first rfl, h.signed first (.head rest), h.follows⟩

namespace Session

variable {verify : ProofVerifier} {c : Session} {tip : ChainTip} {l run : List Snapshot} {r : Response}
  {key : PublicKey} {first last latest : Snapshot}

/-- The run starts just after `latest`, and does not link to it. -/
def BreaksAfter (latest first : Snapshot) : Prop :=
  first.epoch.toNat = latest.epoch.toNat + 1 ∧ first.previous ≠ latest.digest

/-! ## Links -/

theorem not_differsAt_iff {v : View} :
    (∀ e, ¬ DiffersAt v run e) ↔ ∀ s ∈ run, ∀ t, v s.epoch = some t → t = s := by
  constructor
  · exact fun h s hs t ht => not_not.mp fun hne => h s.epoch ⟨s, hs, t, rfl, ht, hne⟩
  · rintro h e ⟨s, hs, t, rfl, ht, hne⟩
    exact hne (h s hs t ht)

/-- Where the run does not differ from the chain that is held, its snapshots are those of the
chain as far as the chain goes. -/
theorem Tracks.observedAt?_of_not_differsAt {s : Snapshot} (h : c.Tracks tip l)
    (hsame : ∀ e, ¬ DiffersAt c.observedAt? run e) (hs : s ∈ run) (he : s.epoch ≤ tip.latest.epoch) :
    c.observedAt? s.epoch = some s := by
  obtain ⟨t, ht⟩ := (h.holdsChain.held s.epoch).mpr he
  rw [ht, not_differsAt_iff.mp hsame s hs t ht]

/-- A run that starts within the chain links to it as its own first snapshot does. -/
theorem Tracks.breaksFromSeen_iff (h : c.Tracks tip l) (hsame : ∀ e, ¬ DiffersAt c.observedAt? run e)
    (hfirst : run.head? = some first) :
    breaksFromSeen c.observed first = true ↔ BreaksAfter tip.latest first := by
  rw [← Bool.not_eq_false, breaksFromSeen_eq_false_iff, BreaksAfter, ← Classical.not_imp, not_congr]
  constructor
  · exact fun hlink he => hlink tip.latest.epoch he tip.latest h.holdsChain.observedLatest
  · intro hlink e he t ht
    have hen := (h.holdsChain.held e).mp ⟨t, ht⟩
    by_cases hin : first.epoch ≤ tip.latest.epoch
    · have hf := h.observedAt?_of_not_differsAt hsame (List.mem_of_mem_head? hfirst) hin
      exact h.holdsChain.links e first.epoch t first he ht hf
    · rw [UInt64.le_iff_toNat_le] at hen hin
      have hlatest : e = tip.latest.epoch := UInt64.toNat_inj.mp (by omega)
      subst hlatest
      have heq := h.holdsChain.observedLatest
      rw [show c.observedAt? tip.latest.epoch = some t from ht, Option.some.injEq] at heq
      exact heq ▸ hlink he

/-- What is held after the end of the run is held with the last snapshot of the run, and links
to it. -/
theorem Tracks.breaksToSeen?_eq_none (h : c.Tracks tip l) (hsame : ∀ e, ¬ DiffersAt c.observedAt? run e)
    (hlast : run.getLast? = some last) : breaksToSeen? c.observed last = none := by
  refine breaksToSeen?_eq_none_iff.mpr fun e he t ht => ?_
  have hen := (h.holdsChain.held e).mp ⟨t, ht⟩
  rw [UInt64.le_iff_toNat_le] at hen
  have hin : last.epoch ≤ tip.latest.epoch := by
    rw [UInt64.le_iff_toNat_le]
    omega
  have hl := h.observedAt?_of_not_differsAt hsame (List.mem_of_getLast? hlast) hin
  exact h.holdsChain.links last.epoch e last t he hl ht

/-! ## Verdicts -/

/-- A difference is reported at the first epoch that shows it. Without one, all that can be
amiss is the link to the latest snapshot held. -/
theorem Tracks.compareRun_cases (h : c.Tracks tip l) (hrun : run.Pairwise fun s t => s.epoch < t.epoch)
    (hfirst : run.head? = some first) (hlast : run.getLast? = some last) :
    (∃ e, FirstDiffersAt c.observedAt? run e ∧
      compareRun c.observed first last run = .error (.equivocation e)) ∨
    ((∀ e, ¬ DiffersAt c.observedAt? run e) ∧
      (BreaksAfter tip.latest first ∧
        compareRun c.observed first last run = .error (.equivocation first.epoch) ∨
       ¬ BreaksAfter tip.latest first ∧ compareRun c.observed first last run = .ok ())) := by
  rw [compareRun]
  cases hd : firstDifference? c.observed run with
  | some e => exact .inl ⟨e, (firstDifference?_eq_some_iff hrun).mp hd, rfl⟩
  | none =>
    have hsame : ∀ e, ¬ DiffersAt c.observedAt? run e :=
      not_differsAt_iff.mpr (firstDifference?_eq_none_iff.mp hd)
    have hb := h.breaksFromSeen_iff hsame hfirst
    refine .inr ⟨hsame, ?_⟩
    by_cases hbreaks : BreaksAfter tip.latest first
    · exact .inl ⟨hbreaks, by simp only [hb.mpr hbreaks, ↓reduceIte]⟩
    · refine .inr ⟨hbreaks, ?_⟩
      simp only [mt hb.mp hbreaks, Bool.false_eq_true, ↓reduceIte, h.breaksToSeen?_eq_none hsame hlast]

theorem FirstDiffersAt.unique {v : View} {e f : Epoch} (he : FirstDiffersAt v run e) (hf : FirstDiffersAt v run f) :
    e = f :=
  UInt64.le_antisymm (he.2 f hf.1) (hf.2 e he.1)

theorem Tracks.compareRun_eq_equivocation_iff {e : Epoch} (h : c.Tracks tip l)
    (hrun : run.Pairwise fun s t => s.epoch < t.epoch) (hfirst : run.head? = some first)
    (hlast : run.getLast? = some last) :
    compareRun c.observed first last run = .error (.equivocation e) ↔
      FirstDiffersAt c.observedAt? run e ∨
        (∀ f, ¬ DiffersAt c.observedAt? run f) ∧ BreaksAfter tip.latest first ∧ e = first.epoch := by
  rcases h.compareRun_cases hrun hfirst hlast with ⟨f, hf, hv⟩ | ⟨hsame, ⟨hb, hv⟩ | ⟨hb, hv⟩⟩
  · rw [hv, Except.error.injEq, SessionError.equivocation.injEq, or_iff_left fun hn => hn.1 f hf.1]
    exact ⟨fun hfe => hfe ▸ hf, hf.unique⟩
  · rw [hv, Except.error.injEq, SessionError.equivocation.injEq, or_iff_right fun he => hsame e he.1]
    exact ⟨fun he => ⟨hsame, hb, he.symm⟩, fun he => he.2.2.symm⟩
  · rw [hv, or_iff_right fun he => hsame e he.1]
    exact ⟨nofun, fun he => absurd he.2.1 hb⟩

theorem Tracks.compareRun_passes_iff (h : c.Tracks tip l) (hrun : run.Pairwise fun s t => s.epoch < t.epoch)
    (hfirst : run.head? = some first) (hlast : run.getLast? = some last) :
    compareRun c.observed first last run = .ok () ↔
      (∀ e, ¬ DiffersAt c.observedAt? run e) ∧ ¬ BreaksAfter tip.latest first := by
  rcases h.compareRun_cases hrun hfirst hlast with ⟨e, he, hv⟩ | ⟨hsame, ⟨hb, hv⟩ | ⟨hb, hv⟩⟩
  · rw [hv]
    exact ⟨nofun, fun hn => absurd he.1 (hn.1 e)⟩
  · rw [hv]
    exact ⟨nofun, fun hn => absurd hb hn.2⟩
  · exact ⟨fun _ => ⟨hsame, hb⟩, fun _ => hv⟩

theorem Tracks.compareRun_ne_chain (h : c.Tracks tip l) (hrun : run.Pairwise fun s t => s.epoch < t.epoch)
    (hfirst : run.head? = some first) (hlast : run.getLast? = some last) (cause : ChainError) :
    compareRun c.observed first last run ≠ .error (.chain cause) := by
  rcases h.compareRun_cases hrun hfirst hlast with ⟨e, -, hv⟩ | ⟨-, ⟨-, hv⟩ | ⟨-, hv⟩⟩
  all_goals
    rw [hv]
    nofun

namespace Sample

/-- A snapshot of the last epoch there is. -/
def remote : Snapshot :=
  ⟨Epoch.last, Digest.zero, Digest.zero,
    ⟨Block32.ofNatLE 0x28523bcfa1dd7fdc50dfdb67b746581cdaf317ce9b2b71cbbdc56293d09979af,
      Block32.ofNatLE 0x859a85b1d4459d7ecfcf0c04bf748e32545442c002b823ba86cb7ddbfe2712a⟩⟩

/-- A snapshot of epoch 2 that links to epoch 0. -/
def detached : Snapshot :=
  ⟨2, Digest.zero, KeyTransparency.Sample.first.digest,
    ⟨Block32.ofNatLE 0x90a0914fedf57dc763eab8a8269841dd84fc79d7e655d816fe708eaa9041daa4,
      Block32.ofNatLE 0x2b5458ffd0afe9c078859e3e2f77f542b035f140e3d6a0c7a4c4d274ee26d45⟩⟩

theorem signedRun_singleton {s : Snapshot} (h0 : s.epoch ≠ 0) (hs : s.hasValidSignature key = true) :
    SignedRun key [s] where
  initial t ht he := by
    cases ht
    exact absurd he h0
  signed := by simpa using hs
  linked := .singleton s

theorem signedRun_remote : SignedRun KeyTransparency.Sample.key [remote] :=
  signedRun_singleton (by decide) (by decide +kernel)

theorem signedRun_detached : SignedRun KeyTransparency.Sample.key [detached] :=
  signedRun_singleton (by decide) (by decide +kernel)

/-- The session has seen epochs 0 and 1. -/
theorem not_differsAt_singleton {s : Snapshot} (hs : 1 < s.epoch) (e : Epoch) :
    ¬ DiffersAt session.observedAt? [s] e := by
  rintro ⟨t, ht, u, rfl, hu, -⟩
  rw [List.mem_singleton] at ht
  subst ht
  have h0 : (0 : Epoch) ≠ t.epoch := fun h => absurd hs (h ▸ by decide)
  have h1 : (1 : Epoch) ≠ t.epoch := fun h => absurd hs (h ▸ by decide)
  simp [observedAt?, session, h0, h1] at hu

end Sample

/-- What a session that has been started, faulted or not, says of any run of consecutive
epochs. It is no chain under the pinned key exactly if the run is not signed and linked.
Otherwise it is an equivocation at the first epoch at which the two differ; if there is none,
an equivocation at the start of the run if that is just after the latest snapshot seen, and
does not link to it; and else the run passes. A snapshot seen after the end of the run is
never at fault. -/
theorem crossCheck_verdict (hc : Reachable verify c) (hk : c.key? = some key) (hn : c.latest? = some latest)
    (hr : r.asHistory = .ok run) (hfirst : run.head? = some first) (hlast : run.getLast? = some last) :
    ((∃ cause, c.crossCheck r = .error (.chain cause)) ↔ ¬ SignedRun key run) ∧
    (SignedRun key run →
      (∀ e, c.crossCheck r = .error (.equivocation e) ↔
        FirstDiffersAt c.observedAt? run e ∨
          (∀ f, ¬ DiffersAt c.observedAt? run f) ∧ BreaksAfter latest first ∧ e = first.epoch) ∧
      (c.crossCheck r = .ok () ↔
        (∀ e, ¬ DiffersAt c.observedAt? run e) ∧ ¬ BreaksAfter latest first)) ∧
    ((∀ e, ¬ DiffersAt c.observedAt? run e) → breaksToSeen? c.observed last = none) := by
  rcases hc.cases with rfl | ⟨tip, l, ht⟩
  · cases hn
  rw [latest?, ht.tip, Option.map_some, Option.some.injEq] at hn
  subst hn
  rw [← checkAuditorRun_eq_ok_iff_signedRun]
  cases hcheck : checkAuditorRun key run with
  | error cause =>
    have hcross : c.crossCheck r = .error (.chain cause) := by simp only [crossCheck, hk, hr, hcheck]
    have hfails : Except.error cause ≠ Except.ok () := by simp
    refine ⟨iff_of_true ⟨cause, hcross⟩ hfails, fun hok => absurd hok hfails, fun hsame => ?_⟩
    exact ht.breaksToSeen?_eq_none hsame hlast
  | ok u =>
    have hcross : c.crossCheck r = compareRun c.observed first last run := by
      simp only [crossCheck, hk, hr, hcheck, hfirst, hlast]
    have hrun := Snapshot.pairwise_epoch_of_isChain (checkAuditorRun_eq_ok_iff_signedRun.mp hcheck).follows
    rw [hcross]
    refine ⟨iff_of_false ?_ (absurd rfl), fun _ => ⟨fun e => ?_, ?_⟩, fun hsame => ?_⟩
    · rintro ⟨cause, hchain⟩
      exact ht.compareRun_ne_chain hrun hfirst hlast cause hchain
    · exact ht.compareRun_eq_equivocation_iff hrun hfirst hlast
    · exact ht.compareRun_passes_iff hrun hfirst hlast
    · exact ht.breaksToSeen?_eq_none hsame hlast

/-- A run at the last epoch there is passes, and one that starts just after the latest snapshot
seen and links to another one does not. -/
theorem crossCheck_verdict_sample :
    Reachable Commitment.verify Sample.session ∧
    Sample.session.latest? = some KeyTransparency.Sample.left ∧
    Sample.session.crossCheck (.ofHistory [Sample.remote]) = .ok () ∧
    Sample.session.crossCheck (.ofHistory [Sample.detached]) = .error (.equivocation 2) := by
  refine ⟨Sample.session_reachable, rfl, ?_, ?_⟩
  · obtain ⟨-, hverdict, -⟩ := crossCheck_verdict (r := .ofHistory [Sample.remote]) Sample.session_reachable
      rfl rfl rfl rfl rfl
    refine (hverdict Sample.signedRun_remote).2.mpr ⟨Sample.not_differsAt_singleton (by decide), fun hb => ?_⟩
    exact absurd hb.1 (by decide)
  · obtain ⟨-, hverdict, -⟩ := crossCheck_verdict (r := .ofHistory [Sample.detached]) Sample.session_reachable
      rfl rfl rfl rfl rfl
    refine ((hverdict Sample.signedRun_detached).1 2).mpr (.inr ⟨?_, ⟨rfl, ?_⟩, rfl⟩)
    · exact Sample.not_differsAt_singleton (by decide)
    · show KeyTransparency.Sample.first.digest ≠ KeyTransparency.Sample.left.digest
      decide +kernel

end Session

end KeyTransparency
