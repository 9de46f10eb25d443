import KeyTransparency.Proofs.Audit.Log
import KeyTransparency.Proofs.Client.Session
import KeyTransparency.Proofs.Message.Response

/-!
# Checking a session against an audit log

A session that is shown snapshots of an auditor passes them if they are a signed and
linked run (`checkAuditorRun_eq_ok_iff`) that fits what the session holds
(`Session.Fits`, `Session.crossCheck_eq_ok_iff`): it has the same snapshots where the
two overlap, and links to them where they only touch.

The run of an audit log is a piece of a history, which is a valid chain from epoch 0
on, and so is what the session holds. Hence one epoch in common decides about the
past (`Session.agreeAt_or_collideAt_of_fits`), and a common past lets every piece fit
(`Session.fits_of_agreeAt`).

* `Session.crossCheck_answer_iff_agreeAt`: what a session learns from the answer of a log.
-/

namespace KeyTransparency

theorem checkAuditorRun_eq_ok_iff {key : PublicKey} {first : Snapshot} {rest : List Snapshot} :
    checkAuditorRun key (first :: rest) = .ok () ↔
      (first.epoch = 0 → first.previous = Digest.zero) ∧ first.hasValidSignature key = true ∧
        (first :: rest).IsChain (Snapshot.Follows key) := by
  rw [checkAuditorRun]
  split
  · rename_i h0
    rw [bind_eq_ok_iff]
    constructor
    · rintro ⟨u, hi, hr⟩
      have hs := checkInitial_eq_ok_iff.mp hi
      exact ⟨fun _ => hs.previous, hs.signed, checkRun_eq_ok_iff.mp hr⟩
    · rintro ⟨hp, hs, hr⟩
      exact ⟨(), checkInitial_eq_ok_iff.mpr ⟨h0, hp h0, hs⟩, checkRun_eq_ok_iff.mpr hr⟩
  · rename_i h0
    split
    · rename_i hs
      simp only [Bool.not_eq_eq_eq_not, Bool.not_true] at hs
      simp [hs, bind, Except.bind]
    · rename_i hs
      simp only [Bool.not_eq_eq_eq_not, Bool.not_true, Bool.not_eq_false] at hs
      simp [h0, hs, ← checkRun_eq_ok_iff]

namespace Session

variable {c : Session} {r : Response} {run : List Snapshot} {first last : Snapshot}
  {observed : Std.ExtTreeMap Epoch Snapshot}

/-! ## What the comparison accepts -/

/-- The run has the snapshots of the view where both have one, and links to those just
before and just after it. -/
structure Fits (v : View) (run : List Snapshot) : Prop where
  same : ∀ s ∈ run, ∀ t, v s.epoch = some t → t = s
  before : ∀ s ∈ run.head?, ∀ e, s.epoch.toNat = e.toNat + 1 → ∀ t, v e = some t → s.previous = t.digest
  after : ∀ s ∈ run.getLast?, ∀ e, e.toNat = s.epoch.toNat + 1 → ∀ t, v e = some t → t.previous = s.digest

theorem firstDifference?_eq_none_iff :
    firstDifference? observed run = none ↔ ∀ s ∈ run, ∀ t, observed[s.epoch]? = some t → t = s := by
  induction run with
  | nil => simp [firstDifference?]
  | cons s run ih =>
    rw [List.forall_mem_cons, firstDifference?]
    cases hs : observed[s.epoch]? with
    | none => simp [ih]
    | some t =>
      by_cases hts : t = s
      · simp [hts, ih]
      · simp [hts]

theorem breaksFromSeen_eq_false_iff : breaksFromSeen observed first = false ↔
    ∀ e : Epoch, first.epoch.toNat = e.toNat + 1 → ∀ t, observed[e]? = some t →
      first.previous = t.digest := by
  simp only [← Epoch.previous?_eq_some_iff, breaksFromSeen]
  cases first.epoch.previous? with
  | none => simp
  | some e =>
    cases he : observed[e]? with
    | none => simp [he]
    | some t => simp [he]

theorem breaksToSeen?_eq_none_iff : breaksToSeen? observed last = none ↔
    ∀ e : Epoch, e.toNat = last.epoch.toNat + 1 → ∀ t, observed[e]? = some t →
      t.previous = last.digest := by
  simp only [← Epoch.next?_eq_some_iff, breaksToSeen?]
  cases last.epoch.next? with
  | none => simp
  | some e =>
    cases he : observed[e]? with
    | none => simp [he]
    | some t => simp [he]

theorem compareRun_eq_ok_iff (hf : run.head? = some first) (hl : run.getLast? = some last) :
    compareRun observed first last run = .ok () ↔ Fits (observed[·]?) run := by
  have hfits : Fits (observed[·]?) run ↔ firstDifference? observed run = none ∧
      breaksFromSeen observed first = false ∧ breaksToSeen? observed last = none := by
    rw [firstDifference?_eq_none_iff, breaksFromSeen_eq_false_iff, breaksToSeen?_eq_none_iff]
    constructor
    · intro h
      exact ⟨h.same, h.before first hf, h.after last hl⟩
    · rintro ⟨hs, hb, ha⟩
      refine ⟨hs, fun s h => ?_, fun s h => ?_⟩
      · rw [hf, Option.mem_some_iff] at h
        exact h ▸ hb
      · rw [hl, Option.mem_some_iff] at h
        exact h ▸ ha
  rw [hfits, compareRun]
  cases firstDifference? observed run with
  | some e => simp
  | none =>
    cases breaksFromSeen observed first with
    | true => simp
    | false => cases breaksToSeen? observed last <;> simp

theorem crossCheck_eq_ok_iff : c.crossCheck r = .ok () ↔
    ∃ key run, c.key? = some key ∧ r.asHistory = .ok run ∧ checkAuditorRun key run = .ok () ∧
      Fits c.observedAt? run := by
  rw [crossCheck]
  cases c.key? with
  | none => simp
  | some key =>
    cases hr : r.asHistory with
    | error e => simp
    | ok run =>
      obtain ⟨-, -, hne, -⟩ := Response.asHistory_eq_ok_iff.mp hr
      have hf := List.head?_eq_some_head hne
      have hl := List.getLast?_eq_some_getLast hne
      simp only [Option.some.injEq, Except.ok.injEq, exists_and_left, exists_eq_left', hf, hl]
      cases checkAuditorRun key run with
      | error e => simp
      | ok u =>
        simp only [true_and]
        exact compareRun_eq_ok_iff hf hl

/-! ## A piece of a history -/

variable {tip : ChainTip} {l : List Snapshot} {h : History} {a b : Epoch}

/-- Where the run and the session overlap, the last epoch in common has one snapshot.
Where they only touch, the first snapshot of the run links to what either of them holds
just before. Both times the chains have one digest at the last epoch in question, and
with it one past. -/
theorem agreeAt_or_collideAt_of_fits (hc : c.Tracks tip l) (hh : h.Sound) (hr : h.IsRange a b run)
    (hab : a ≤ b) (hb : b ≤ h.latest.epoch) (ha : a.toNat ≤ tip.latest.epoch.toNat + 1)
    (hf : Fits c.observedAt? run) :
    (∀ e, e ≤ b → e ≤ tip.latest.epoch → View.AgreeAt c.observedAt? h.at? e) ∨
    ∃ e, e ≤ b ∧ e ≤ tip.latest.epoch ∧ View.CollideAt c.observedAt? h.at? e := by
  obtain ⟨k, hkb, hkn, hk⟩ : ∃ k, k ≤ b ∧ k ≤ tip.latest.epoch ∧
      ∀ e, e ≤ b → e ≤ tip.latest.epoch → e ≤ k := by
    rcases UInt64.le_total b tip.latest.epoch with hbn | hnb
    · exact ⟨b, UInt64.le_refl b, hbn, fun e he _ => he⟩
    · exact ⟨_, hnb, UInt64.le_refl _, fun e _ he => he⟩
  obtain ⟨s, hs⟩ := (hc.holdsChain.held k).mpr hkn
  obtain ⟨t, ht⟩ := hh.exists_at? (UInt64.le_trans hkb hb)
  have hd : s.digest = t.digest := by
    by_cases hak : a ≤ k
    · have hte := h.shows_snapshots.epoch_eq hh.chain ht
      have htr : t ∈ run := (hr.mem_iff t).mpr (hte ▸ ⟨hak, hkb, ht⟩)
      rw [hf.same t htr s (hte ▸ hs)]
    · obtain ⟨u, hu⟩ := hh.exists_at? (UInt64.le_trans hab hb)
      have hue := h.shows_snapshots.epoch_eq hh.chain hu
      have hn := hk tip.latest.epoch
      simp only [UInt64.le_iff_toNat_le] at hab hak hkn hn hk
      have hka : a.toNat = k.toNat + 1 := by
        have := hk a hab
        omega
      have hus := hf.before u (hr.head.trans hu) k (hue ▸ hka) s hs
      have hut := (h.shows_snapshots.follows hh.chain ht hu hka).previous
      exact hus.symm.trans hut
  rcases View.agreeAt_or_collideAt hc.shows hc.chain.chain h.shows_snapshots hh.chain hs ht hd with
    hall | ⟨i, hi, hcol⟩
  · exact .inl fun e heb hen => hall e (hk e heb hen)
  · exact .inr ⟨i, UInt64.le_trans hi hkb, UInt64.le_trans hi hkn, hcol⟩

/-- What the session holds of an epoch up to the end of the run is the snapshot of the
history. -/
theorem fits_of_agreeAt_upTo (hc : c.Tracks tip l) (hh : h.Sound) (hr : h.IsRange a b run) (hab : a ≤ b)
    (hall : ∀ e, e ≤ b → e ≤ tip.latest.epoch → View.AgreeAt c.observedAt? h.at? e) :
    Fits c.observedAt? run := by
  have common {e : Epoch} {t : Snapshot} (he : e ≤ b) (ht : c.observedAt? e = some t) :
      h.at? e = some t := by
    obtain ⟨u, hu, hu'⟩ := hall e he ((hc.holdsChain.held e).mp ⟨t, ht⟩)
    rw [ht, Option.some.injEq] at hu
    exact hu ▸ hu'
  have epoch_eq {e : Epoch} {s : Snapshot} (hs : h.at? e = some s) : s.epoch = e :=
    h.shows_snapshots.epoch_eq hh.chain hs
  refine ⟨fun s hs t ht => ?_, fun s hs e he t ht => ?_, fun s hs e he t ht => ?_⟩
  · obtain ⟨-, hsb, hs⟩ := (hr.mem_iff s).mp hs
    have ht := common hsb ht
    rw [hs, Option.some.injEq] at ht
    exact ht.symm
  · rw [hr.head] at hs
    rw [epoch_eq hs] at he
    have hea : e ≤ a := by rw [UInt64.le_iff_toNat_le]; omega
    have ht := common (UInt64.le_trans hea hab) ht
    exact (h.shows_snapshots.follows hh.chain ht hs he).previous
  · rw [hr.last] at hs
    rw [epoch_eq hs] at he
    have hbe : b ≤ e := by rw [UInt64.le_iff_toNat_le]; omega
    obtain ⟨u, hu⟩ := hc.shows.exists_of_le ht hbe
    have hus := common (UInt64.le_refl b) hu
    rw [hs, Option.some.injEq] at hus
    exact hus ▸ (hc.shows.follows hc.chain.chain hu ht he).previous

/-- A session that agrees with the whole history fits every run of it. -/
theorem fits_of_agreeAt (hc : c.Tracks tip l) (hh : h.Sound) (hr : h.IsRange a b run)
    (hab : a ≤ b) (hb : b ≤ h.latest.epoch)
    (hall : ∀ e, e ≤ h.latest.epoch → e ≤ tip.latest.epoch → View.AgreeAt c.observedAt? h.at? e) :
    Fits c.observedAt? run :=
  fits_of_agreeAt_upTo hc hh hr hab fun e he => hall e (UInt64.le_trans he hb)

theorem checkAuditorRun_of_isRange (hh : h.Sound) (hr : h.IsRange a b run) (hne : run ≠ []) :
    checkAuditorRun h.key run = .ok () := by
  cases run with
  | nil => exact absurd rfl hne
  | cons first rest =>
    have hs : h.at? a = some first := hr.head.symm
    refine checkAuditorRun_eq_ok_iff.mpr ⟨fun h0 => ?_, h.shows_snapshots.signed hh.chain hs, hr.linked⟩
    rw [h.shows_snapshots.epoch_eq hh.chain hs] at h0
    exact (h.shows_snapshots.starts hh.chain (h0 ▸ hs)).previous

theorem asHistory_of_isRange (hr : h.IsRange a b run) (hne : run ≠ []) :
    (Response.ofHistory run).asHistory = .ok run :=
  Response.asHistory_eq_ok_iff.mpr
    ⟨rfl, rfl, hne, consecutive_iff.mpr (hr.linked.imp fun _ _ hst => hst.epoch)⟩

/-! ## The answer of a log -/

variable {verify : ProofVerifier} {log : AuditLog} {id : DirectoryId} {latest : Snapshot}

/-- A session that passes the answer of a log, to a request that starts at most one epoch
after what it holds, agrees with the log at every epoch of both up to the end of the
answer. One that has the key of the log and agrees with it passes every answer. -/
theorem crossCheck_answer_iff_agreeAt (hc : Reachable verify c) (hl : log.Reachable)
    (hn : c.latest? = some latest) (hh : log.history id = .ok h) (hab : a ≤ b)
    (hb : b ≤ h.latest.epoch) :
    (a.toNat ≤ latest.epoch.toNat + 1 → c.crossCheck (log.answer ⟨id, a, b⟩) = .ok () →
      (∀ e, e ≤ b → e ≤ latest.epoch → View.AgreeAt c.observedAt? h.at? e) ∨
        ∃ e, e ≤ b ∧ e ≤ latest.epoch ∧ View.CollideAt c.observedAt? h.at? e) ∧
    (c.key? = some h.key →
      (∀ e, e ≤ h.latest.epoch → e ≤ latest.epoch → View.AgreeAt c.observedAt? h.at? e) →
        c.crossCheck (log.answer ⟨id, a, b⟩) = .ok ()) := by
  have hs : h.Sound := (hl.sound id h (AuditLog.history_eq_ok_iff.mp hh)).1
  have hr := hs.isRange hab hb
  rw [AuditLog.answer_eq_ofHistory hh (hs.range?_eq_some hab hb), crossCheck_eq_ok_iff]
  generalize (h.snapshots.drop a.toNat).take (b.toNat + 1 - a.toNat) = run at hr
  rcases hc.cases with rfl | ⟨tip, l, ht⟩
  · cases hn
  have hne : run ≠ [] := by
    rintro rfl
    obtain ⟨s, hs⟩ := hs.exists_at? (UInt64.le_trans hab hb)
    rw [← hr.head] at hs
    cases hs
  rw [latest?, ht.tip, Option.map_some, Option.some.injEq] at hn
  subst hn
  constructor
  · rintro ha ⟨key, run', -, hrun', -, hf⟩
    rw [asHistory_of_isRange hr hne, Except.ok.injEq] at hrun'
    subst hrun'
    exact agreeAt_or_collideAt_of_fits ht hs hr hab hb ha hf
  · intro hk hall
    exact ⟨h.key, run, hk, asHistory_of_isRange hr hne, checkAuditorRun_of_isRange hs hr hne,
      fits_of_agreeAt ht hs hr hab hb hall⟩

theorem crossCheck_answer_iff_agreeAt_sample :
    Reachable Commitment.verify Sample.session ∧
    (AuditLog.Sample.opened.run AuditLog.Sample.calls).2.Reachable ∧
    Sample.session.crossCheck ((AuditLog.Sample.opened.run AuditLog.Sample.calls).2.answer
      ⟨KeyTransparency.Sample.first.directoryId, 1, 1⟩) = .ok () ∧
    ((∀ e, e ≤ 1 → e ≤ KeyTransparency.Sample.left.epoch →
        View.AgreeAt Sample.session.observedAt? AuditLog.Sample.history.at? e) ∨
      ∃ e, e ≤ 1 ∧ e ≤ KeyTransparency.Sample.left.epoch ∧
        View.CollideAt Sample.session.observedAt? AuditLog.Sample.history.at? e) := by
  have hl := AuditLog.Sample.opened_reachable.run AuditLog.Sample.calls
  obtain ⟨sound, complete⟩ := crossCheck_answer_iff_agreeAt (a := 1) (b := 1) Sample.session_reachable
    hl rfl AuditLog.Sample.history_of_run (UInt64.le_refl 1) (UInt64.le_refl 1)
  have hall (e : Epoch) (he : e ≤ 1) :
      View.AgreeAt Sample.session.observedAt? AuditLog.Sample.history.at? e := by
    obtain ⟨h0, h1⟩ := Sample.observedAt?_session
    rcases (by grind : e = 0 ∨ e = 1) with rfl | rfl
    · exact ⟨_, h0, rfl⟩
    · exact ⟨_, h1, rfl⟩
  have hok := complete rfl fun e he _ => hall e he
  exact ⟨Sample.session_reachable, hl, hok, sound (by decide) hok⟩

end Session

end KeyTransparency
