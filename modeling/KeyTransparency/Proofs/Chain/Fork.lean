import KeyTransparency.Proofs.Chain.Valid
import KeyTransparency.Proofs.Wire.RoundTrip
import Mathlib.Logic.Function.Basic

/-!
# Two chains side by side

What an observer holds of a directory is a snapshot or none for every epoch
(`View`), and mostly the snapshots of a valid chain (`View.Shows`). Two views agree
at an epoch (`View.AgreeAt`) if they hold the same snapshot, and collide there
(`View.CollideAt`) if they hold snapshots that differ, and whose bytes have one
hash all the same.

* `View.Shows.put`: a view of a chain, with the snapshots put in that continue the
  chain, is a view of the longer one;
* `View.agreeAt_or_collideAt`: where two chains hold snapshots with one digest,
  they agree at every epoch up to there, or collide at one of them.
-/

namespace KeyTransparency

/-- The snapshots that an observer holds of a directory, by epoch. -/
abbrev View := Epoch → Option Snapshot

namespace View

/-- The view holds the snapshots of `l`, each at its position. -/
def Shows (v : View) (l : List Snapshot) : Prop :=
  ∀ e, v e = l[e.toNat]?

/-- Both views hold the same snapshot of the epoch. -/
def AgreeAt (v w : View) (e : Epoch) : Prop :=
  ∃ s, v e = some s ∧ w e = some s

/-- The views hold two snapshots of the epoch whose bytes differ and have the same hash. -/
def CollideAt (v w : View) (e : Epoch) : Prop :=
  ∃ s t, v e = some s ∧ w e = some t ∧ s.encode ≠ t.encode ∧ s.digest = t.digest

/-- The view with the snapshots of `m` put in, each in place of any other of its epoch. -/
def put (v : View) (m : List Snapshot) : View :=
  m.foldl (fun v s => Function.update v s.epoch (some s)) v

variable {v w : View} {key key' : PublicKey} {l m : List Snapshot} {s t : Snapshot} {e f : Epoch}

/-! ## The view of a chain -/

namespace Shows

theorem epoch_eq (hv : v.Shows l) (hl : ValidChain key l) (hs : v e = some s) : s.epoch = e :=
  UInt64.toNat_inj.mp (hl.epoch_eq (hv e ▸ hs))

theorem signed (hv : v.Shows l) (hl : ValidChain key l) (hs : v e = some s) :
    s.hasValidSignature key = true :=
  hl.signed (hv e ▸ hs)

theorem starts (hv : v.Shows l) (hl : ValidChain key l) (hs : v 0 = some s) : s.Starts key :=
  hl.starts_of_getElem? (hv 0 ▸ hs)

theorem follows (hv : v.Shows l) (hl : ValidChain key l) (hs : v e = some s) (ht : v f = some t)
    (hf : f.toNat = e.toNat + 1) : Snapshot.Follows key s t :=
  hl.follows (hv e ▸ hs) (hf ▸ hv f ▸ ht)

/-- The epochs held are those below the length of the chain. -/
theorem exists_iff (hv : v.Shows l) : (∃ s, v e = some s) ↔ e.toNat < l.length := by
  rw [hv e]
  constructor
  · rintro ⟨s, hs⟩
    exact (List.getElem?_eq_some_iff.mp hs).1
  · intro he
    exact ⟨_, List.getElem?_eq_getElem he⟩

/-- With the snapshot of an epoch, that of every earlier epoch is held. -/
theorem exists_of_le (hv : v.Shows l) (hs : v e = some s) (hf : f ≤ e) : ∃ t, v f = some t := by
  rw [UInt64.le_iff_toNat_le] at hf
  have he := hv.exists_iff.mp ⟨s, hs⟩
  exact hv.exists_iff.mpr (by omega)

/-- By induction on the snapshots put in: each stands at the end of the chain, because
its epoch is the length of the chain before it. -/
theorem put (hv : v.Shows l) (hl : ValidChain key (l ++ m)) : (v.put m).Shows (l ++ m) := by
  induction m generalizing l v with
  | nil => rwa [List.append_nil]
  | cons s m ih =>
    rw [List.append_cons] at hl ⊢
    have hs : s.epoch.toNat = l.length := hl.epoch_eq (by simp)
    rw [show v.put (s :: m) = View.put (Function.update v s.epoch (some s)) m from rfl]
    refine ih (fun e => ?_) hl
    have he : e = s.epoch ↔ e.toNat = l.length := by rw [← UInt64.toNat_inj, hs]
    rw [Function.update_apply]
    simp only [he]
    split
    · rename_i hn
      rw [hn, List.getElem?_concat_length]
    · rename_i hn
      refine (hv e).trans ?_
      rw [List.getElem?_append]
      split
      · rfl
      · rw [List.getElem?_eq_none (by omega), List.getElem?_eq_none (by simp; omega)]

end Shows

/-! ## Agreement -/

/-- What views agree on, views that hold more agree on. -/
theorem AgreeAt.mono {v' w' : View} (hv : ∀ e s, v e = some s → v' e = some s)
    (hw : ∀ e s, w e = some s → w' e = some s) (h : AgreeAt v w e) : AgreeAt v' w' e := by
  obtain ⟨s, hs, ht⟩ := h
  exact ⟨s, hv e s hs, hw e s ht⟩

theorem CollideAt.mono {v' w' : View} (hv : ∀ e s, v e = some s → v' e = some s)
    (hw : ∀ e s, w e = some s → w' e = some s) (h : CollideAt v w e) : CollideAt v' w' e := by
  obtain ⟨s, t, hs, ht, hst⟩ := h
  exact ⟨s, t, hv e s hs, hw e t ht, hst⟩

theorem AgreeAt.not_collideAt (h : AgreeAt v w e) : ¬ CollideAt v w e := by
  rintro ⟨s, t, hs, ht, hne, -⟩
  obtain ⟨u, hu, hu'⟩ := h
  rw [hu, Option.some.injEq] at hs
  rw [hu', Option.some.injEq] at ht
  exact hne (congrArg Snapshot.encode (hs.symm.trans ht))

/-- Snapshots of one epoch with one digest are the same, or collide. -/
theorem agreeAt_or_collideAt_of_digest_eq (hs : v e = some s) (ht : w e = some t)
    (hd : s.digest = t.digest) : AgreeAt v w e ∨ CollideAt v w e := by
  by_cases h : s.encode = t.encode
  · exact .inl ⟨s, hs, Snapshot.encode_inj h ▸ ht⟩
  · exact .inr ⟨s, t, hs, ht, h, hd⟩

/-- By induction on the epoch: a snapshot carries the digest of the one before it, so
that views that agree at an epoch hold snapshots with one digest just before. -/
theorem agreeAt_or_collideAt (hv : v.Shows l) (hl : ValidChain key l) (hw : w.Shows m)
    (hm : ValidChain key' m) : ∀ {e s t}, v e = some s → w e = some t → s.digest = t.digest →
      (∀ i ≤ e, AgreeAt v w i) ∨ ∃ i ≤ e, CollideAt v w i := by
  intro e
  induction hn : e.toNat generalizing e with
  | zero =>
    intro s t hs ht hd
    have he : e = 0 := UInt64.toNat_inj.mp hn
    subst he
    rcases agreeAt_or_collideAt_of_digest_eq hs ht hd with ha | hc
    · exact .inl fun i hi => UInt64.le_zero_iff.mp hi ▸ ha
    · exact .inr ⟨0, UInt64.le_refl 0, hc⟩
  | succ n ih =>
    intro s t hs ht hd
    rcases agreeAt_or_collideAt_of_digest_eq hs ht hd with ha | hc
    · obtain ⟨u, hvu, hwu⟩ := ha
      obtain ⟨f, hf⟩ : ∃ f : Epoch, e.toNat = f.toNat + 1 :=
        ⟨e - 1, Epoch.previous?_eq_some_iff.mp (by simp [Epoch.previous?, ← UInt64.toNat_inj, hn])⟩
      have hfe : f ≤ e := by rw [UInt64.le_iff_toNat_le]; omega
      obtain ⟨s', hs'⟩ := hv.exists_of_le hvu hfe
      obtain ⟨t', ht'⟩ := hw.exists_of_le hwu hfe
      have hsu := (hv.follows hl hs' hvu hf).previous
      have htu := (hw.follows hm ht' hwu hf).previous
      rcases ih (by omega) hs' ht' (hsu.symm.trans htu) with ha | ⟨i, hi, hc⟩
      · refine .inl fun i hi => ?_
        by_cases hie : i = e
        · exact hie ▸ ⟨u, hvu, hwu⟩
        · rw [UInt64.le_iff_toNat_le] at hi
          rw [← UInt64.toNat_inj] at hie
          exact ha i (by rw [UInt64.le_iff_toNat_le]; omega)
      · exact .inr ⟨i, UInt64.le_trans hi hfe, hc⟩
    · exact .inr ⟨e, UInt64.le_refl e, hc⟩

end View

end KeyTransparency
