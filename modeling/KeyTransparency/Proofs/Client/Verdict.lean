import KeyTransparency.Proofs.Client.CrossCheck

/-!
# The verdict on a fork

A session and a history may be on two branches of one directory: up to some epoch they
hold the same snapshots, and from then on snapshots with different digests
(`View.ForksAt`). What the session says of a run of the history depends on where the run
lies, and is the same for all such branches.

* `Session.crossCheck_answer_of_agreeAt`: where they agree, a run passes;
* `Session.crossCheck_answer_of_forksAt`: a run that reaches beyond the fork is an
  equivocation, at the first epoch at which it can be seen, unless it starts too late to
  be compared; every other run passes.
-/

namespace KeyTransparency

/-- The views hold the same snapshots up to the epoch `k`, and after it snapshots with
different digests. -/
structure View.ForksAt (v w : View) (k : Epoch) : Prop where
  past : ∀ e s t, e ≤ k → v e = some s → w e = some t → s = t
  future : ∀ e s t, k < e → v e = some s → w e = some t → s.digest ≠ t.digest

namespace Session

/-- The run has a snapshot of the epoch, and the view has another one. -/
def DiffersAt (v : View) (run : List Snapshot) (e : Epoch) : Prop :=
  ∃ s ∈ run, ∃ t, s.epoch = e ∧ v e = some t ∧ t ≠ s

/-- The least of the epochs at which run and view differ. -/
def FirstDiffersAt (v : View) (run : List Snapshot) (e : Epoch) : Prop :=
  DiffersAt v run e ∧ ∀ f, DiffersAt v run f → e ≤ f

variable {c : Session} {tip : ChainTip} {l run : List Snapshot} {h : History} {log : AuditLog}
  {id : DirectoryId} {observed : Std.ExtTreeMap Epoch Snapshot} {a b e k : Epoch} {s t : Snapshot}

theorem differsAt_cons_iff {v : View} : DiffersAt v (s :: run) e ↔
    (s.epoch = e ∧ ∃ t, v e = some t ∧ t ≠ s) ∨ DiffersAt v run e := by
  simp only [DiffersAt, List.mem_cons, or_and_right, exists_or, exists_eq_left, exists_and_left]

/-- By induction on the run: what is behind its first snapshot has later epochs. -/
theorem firstDifference?_eq_some_iff (hrun : run.Pairwise fun s t => s.epoch < t.epoch) :
    firstDifference? observed run = some e ↔ FirstDiffersAt (observed[·]?) run e := by
  induction run with
  | nil =>
    simp only [firstDifference?, reduceCtorEq, false_iff]
    rintro ⟨⟨s, hs, -⟩, -⟩
    cases hs
  | cons u run ih =>
    obtain ⟨hu, hrun⟩ := List.pairwise_cons.mp hrun
    by_cases hsame : ∀ t, observed[u.epoch]? = some t → t = u
    · -- The first snapshot is as it was seen, or is of an epoch that has not been seen.
      have hcons (f : Epoch) : DiffersAt (observed[·]?) (u :: run) f ↔ DiffersAt (observed[·]?) run f := by
        rw [differsAt_cons_iff, or_iff_right]
        rintro ⟨rfl, t, ht, hne⟩
        exact hne (hsame t ht)
      have hskip : firstDifference? observed (u :: run) = firstDifference? observed run := by
        rw [firstDifference?]
        cases ht : observed[u.epoch]? with
        | none => rfl
        | some t => simp only [if_pos (hsame t ht)]
      rw [hskip, ih hrun, FirstDiffersAt, FirstDiffersAt, hcons]
      simp only [hcons]
    · obtain ⟨t, ht⟩ := not_forall.mp hsame
      obtain ⟨ht, hne⟩ := Classical.not_imp.mp ht
      have hfirst : FirstDiffersAt (observed[·]?) (u :: run) u.epoch := by
        refine ⟨differsAt_cons_iff.mpr (.inl ⟨rfl, t, ht, hne⟩), fun f hf => ?_⟩
        rcases differsAt_cons_iff.mp hf with ⟨rfl, -⟩ | ⟨s, hs, -, rfl, -⟩
        · exact UInt64.le_refl u.epoch
        · exact UInt64.le_of_lt (hu s hs)
      simp only [firstDifference?, ht, if_neg hne, Option.some.injEq]
      constructor
      · rintro rfl
        exact hfirst
      · intro h
        exact UInt64.le_antisymm (hfirst.2 e h.1) (h.2 u.epoch hfirst.1)

/-- What is compared with the session is the run that the log has. -/
theorem crossCheck_answer_eq (hk : c.key? = some h.key) (hh : log.history id = .ok h) (hs : h.Sound)
    (hab : a ≤ b) (hb : b ≤ h.latest.epoch) :
    ∃ first last run, h.IsRange a b run ∧ run.head? = some first ∧ run.getLast? = some last ∧
      c.crossCheck (log.answer ⟨id, a, b⟩) = compareRun c.observed first last run := by
  have hr := hs.isRange hab hb
  have ha := AuditLog.answer_eq_ofHistory hh (hs.range?_eq_some hab hb)
  generalize (h.snapshots.drop a.toNat).take (b.toNat + 1 - a.toNat) = run at hr ha
  obtain ⟨first, hfirst⟩ := hs.exists_at? (UInt64.le_trans hab hb)
  obtain ⟨last, hlast⟩ := hs.exists_at? hb
  have hf := hr.head.trans hfirst
  have hl := hr.last.trans hlast
  have hne : run ≠ [] := by
    rintro rfl
    cases hf
  refine ⟨first, last, run, hr, hf, hl, ?_⟩
  simp only [ha, crossCheck, hk, asHistory_of_isRange hr hne, checkAuditorRun_of_isRange hs hr hne, hf, hl]

/-- A session passes a run of the log up to whose end it agrees with the log. -/
theorem crossCheck_answer_of_agreeAt (hc : c.Tracks tip l) (hk : c.key? = some h.key)
    (hh : log.history id = .ok h) (hs : h.Sound) (hab : a ≤ b) (hb : b ≤ h.latest.epoch)
    (hall : ∀ e, e ≤ b → e ≤ tip.latest.epoch → View.AgreeAt c.observedAt? h.at? e) :
    c.crossCheck (log.answer ⟨id, a, b⟩) = .ok () := by
  obtain ⟨first, last, run, hr, hfirst, hlast, he⟩ := crossCheck_answer_eq hk hh hs hab hb
  rw [he]
  exact (compareRun_eq_ok_iff hfirst hlast).mpr (fits_of_agreeAt_upTo hc hs hr hab hall)

/-- A run that reaches an epoch after the fork that the session holds differs there, and
at none before. -/
theorem compareRun_of_overlap (hc : c.Tracks tip l) (hs : h.Sound) (hr : h.IsRange a b run)
    (hb : b ≤ h.latest.epoch) (hf : View.ForksAt c.observedAt? h.at? k) (hae : a ≤ e) (heb : e ≤ b)
    (hen : e ≤ tip.latest.epoch) (hke : k < e) (hleast : ∀ f, a ≤ f → f < e → f ≤ k) :
    compareRun c.observed s t run = .error (.equivocation e) := by
  obtain ⟨u, hu⟩ := hs.exists_at? (UInt64.le_trans heb hb)
  obtain ⟨v, hv⟩ := (hc.holdsChain.held e).mpr hen
  have hue : u.epoch = e := h.shows_snapshots.epoch_eq hs.chain hu
  have hur : u ∈ run := (hr.mem_iff u).mpr ⟨hue ▸ hae, hue ▸ heb, hue ▸ hu⟩
  have hne : v ≠ u := fun hvu => hf.future e v u hke hv hu (congrArg Snapshot.digest hvu)
  have hfirst : firstDifference? c.observed run = some e := by
    refine (firstDifference?_eq_some_iff (Snapshot.pairwise_epoch_of_isChain hr.linked)).mpr
      ⟨⟨u, hur, v, hue, hv, hne⟩, ?_⟩
    rintro f ⟨w, hw, w', rfl, hw', hne'⟩
    obtain ⟨haw, -, hhw⟩ := (hr.mem_iff w).mp hw
    refine UInt64.not_lt.mp fun hwe => hne' ?_
    exact hf.past w.epoch w' w (hleast w.epoch haw hwe) hw' hhw
  rw [compareRun, hfirst]

/-- A run after the fork that starts where the session ends does not link to it. -/
theorem compareRun_of_touch (hc : c.Tracks tip l) (hs : h.Sound) (hr : h.IsRange a b run)
    (hfirst : run.head? = some s) (ha : a.toNat = tip.latest.epoch.toNat + 1)
    (hf : View.ForksAt c.observedAt? h.at? k) (hkn : k < tip.latest.epoch) :
    compareRun c.observed s t run = .error (.equivocation a) := by
  have hnone : firstDifference? c.observed run = none := by
    refine firstDifference?_eq_none_iff.mpr fun u hu v hv => ?_
    have hau := ((hr.mem_iff u).mp hu).1
    have hun := (hc.holdsChain.held u.epoch).mp ⟨v, hv⟩
    rw [UInt64.le_iff_toNat_le] at hau hun
    omega
  have hsa : h.at? a = some s := hr.head.symm.trans hfirst
  have hae : s.epoch = a := h.shows_snapshots.epoch_eq hs.chain hsa
  have hbreaks : breaksFromSeen c.observed s = true := by
    rw [← Bool.not_eq_false, breaksFromSeen_eq_false_iff]
    intro hlink
    obtain ⟨u, hu⟩ := (hc.holdsChain.held tip.latest.epoch).mpr (UInt64.le_refl _)
    have hna : tip.latest.epoch ≤ a := by
      rw [UInt64.le_iff_toNat_le]
      omega
    obtain ⟨v, hv⟩ := h.shows_snapshots.exists_of_le hsa hna
    have hsu : s.previous = u.digest := hlink tip.latest.epoch (hae ▸ ha) u hu
    have hsv : s.previous = v.digest := (h.shows_snapshots.follows hs.chain hv hsa ha).previous
    exact hf.future tip.latest.epoch u v hkn hu hv (hsu.symm.trans hsv)
  rw [compareRun, hnone]
  simp only [hbreaks, ↓reduceIte, hae]

/-- A run that starts later than just after what the session holds touches none of it. -/
theorem fits_of_beyond (hc : c.Tracks tip l) (hs : h.Sound) (hr : h.IsRange a b run) (hab : a ≤ b)
    (ha : tip.latest.epoch.toNat + 1 < a.toNat) : Fits c.observedAt? run := by
  have unseen {e : Epoch} {t : Snapshot} (he : a.toNat ≤ e.toNat + 1) (ht : c.observedAt? e = some t) : False := by
    have hen := (hc.holdsChain.held e).mp ⟨t, ht⟩
    rw [UInt64.le_iff_toNat_le] at hen
    omega
  have epoch_eq {e : Epoch} {s : Snapshot} (hs' : h.at? e = some s) : s.epoch = e :=
    h.shows_snapshots.epoch_eq hs.chain hs'
  refine ⟨fun s hs t ht => ?_, fun s hs e he t ht => ?_, fun s hs e he t ht => ?_⟩
  · have has := ((hr.mem_iff s).mp hs).1
    rw [UInt64.le_iff_toNat_le] at has
    exact (unseen (by omega) ht).elim
  · rw [hr.head] at hs
    rw [epoch_eq hs] at he
    exact (unseen (by omega) ht).elim
  · rw [hr.last] at hs
    rw [epoch_eq hs] at he
    rw [UInt64.le_iff_toNat_le] at hab
    exact (unseen (by omega) ht).elim

/-- By cases on where the run starts: within what the session holds, the snapshots differ
at the first epoch after the fork; just after it, the run does not link to it; and a run
that starts later has nothing to compare with. -/
theorem crossCheck_answer_of_forksAt (hc : c.Tracks tip l) (hk : c.key? = some h.key)
    (hh : log.history id = .ok h) (hs : h.Sound) (hab : a ≤ b) (hb : b ≤ h.latest.epoch)
    (hf : View.ForksAt c.observedAt? h.at? k) (hkn : k < tip.latest.epoch) :
    c.crossCheck (log.answer ⟨id, a, b⟩) =
      if a.toNat ≤ tip.latest.epoch.toNat + 1 ∧ k < b then .error (.equivocation (max a (k + 1))) else .ok () := by
  have hk1 : (k + 1).toNat = k.toNat + 1 := by
    have := tip.latest.epoch.toNat_lt
    rw [UInt64.lt_iff_toNat_lt] at hkn
    rw [UInt64.toNat_add, UInt64.toNat_one, Nat.mod_eq_of_lt (by omega)]
  have hmax : max a (k + 1) = if a ≤ k + 1 then k + 1 else a := rfl
  obtain ⟨first, last, run, hr, hfirst, hlast, he⟩ := crossCheck_answer_eq hk hh hs hab hb
  split
  · rename_i hcond
    obtain ⟨ha, hkb⟩ := hcond
    rw [he, hmax]
    split
    · rename_i hak
      simp only [UInt64.le_iff_toNat_le, UInt64.lt_iff_toNat_lt] at hak hkb hkn
      refine compareRun_of_overlap hc hs hr hb hf hak ?_ ?_ ?_ fun f _ hfk => ?_
      all_goals simp only [UInt64.le_iff_toNat_le, UInt64.lt_iff_toNat_lt] at *; omega
    · rename_i hak
      by_cases han : a ≤ tip.latest.epoch
      · refine compareRun_of_overlap hc hs hr hb hf (UInt64.le_refl a) hab han ?_ fun f haf hfa => ?_
        · simp only [UInt64.le_iff_toNat_le, UInt64.lt_iff_toNat_lt] at *
          omega
        · exact absurd hfa (UInt64.not_lt.mpr haf)
      · rw [UInt64.le_iff_toNat_le] at han
        exact compareRun_of_touch hc hs hr hfirst (by omega) hf hkn
  · rename_i hcond
    by_cases hbk : b ≤ k
    · refine crossCheck_answer_of_agreeAt hc hk hh hs hab hb fun e heb hen => ?_
      obtain ⟨s, hs'⟩ := (hc.holdsChain.held e).mpr hen
      obtain ⟨t, ht⟩ := hs.exists_at? (UInt64.le_trans heb hb)
      exact ⟨s, hs', hf.past e s t (UInt64.le_trans heb hbk) hs' ht ▸ ht⟩
    · have hfar : tip.latest.epoch.toNat + 1 < a.toNat :=
        Nat.lt_of_not_le fun ha => hcond ⟨ha, UInt64.not_le.mp hbk⟩
      rw [he]
      exact (compareRun_eq_ok_iff hfirst hlast).mpr (fits_of_beyond hc hs hr hab hfar)

end Session

end KeyTransparency
