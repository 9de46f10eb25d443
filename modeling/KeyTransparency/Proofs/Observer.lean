import KeyTransparency.Proofs.Audit.Log
import KeyTransparency.Proofs.Client.Session

/-!
# Observers of a directory

Histories, audit logs and sessions all take snapshots of a directory, each on its own,
and hold those they took (`Observer.view`). Whatever they were asked, they hold a
valid chain or nothing (`Observer.Reachable.holds`), and later they hold what they
held before (`Observer.Later.view_eq`).

* `Observer.forks_never_rejoin`: two observers that hold snapshots with one digest
  have the same past, and two that hold different snapshots of an epoch differ at
  every later epoch that both come to hold, unless two snapshots collide.
-/

namespace KeyTransparency

/-- Who holds snapshots of a directory. -/
inductive Observer where
  | history (h : History)
  | log (log : AuditLog) (id : DirectoryId)
  | session (verify : ProofVerifier) (c : Session)

namespace Observer

/-- The snapshots held. -/
def view : Observer → View
  | history h => h.at?
  | log l id => fun e => l.histories[id]?.bind fun h => h.at? e
  | session _ c => c.observedAt?

/-- The observer is one that calls have led to. -/
def Reachable : Observer → Prop
  | history h => h.Reachable
  | log l _ => l.Reachable
  | session verify c => Session.Reachable verify c

/-- What becomes of an observer as snapshots are offered to it, in any batches, between
any other calls. -/
inductive Later : Observer → Observer → Prop
  | history (h : History) (runs : List (List Snapshot)) :
    Later (.history h) (.history (h.appendAll runs))
  | log (l : AuditLog) (id : DirectoryId) (calls : List AuditLog.Call) :
    Later (.log l id) (.log (l.run calls).2 id)
  | session (verify : ProofVerifier) (c : Session) (calls : List Session.Call) :
    Later (.session verify c) (.session verify (Session.run verify c calls).2)

variable {o o' p p' : Observer} {e : Epoch} {s t : Snapshot}

theorem Later.reachable (h : o.Later o') (ho : o.Reachable) : o'.Reachable := by
  cases h with
  | history h runs =>
    obtain ⟨address, key, initial, h₀, before, hst, rfl⟩ := ho
    exact ⟨address, key, initial, h₀, before ++ runs, hst, List.foldl_append⟩
  | log l id calls => exact AuditLog.Reachable.run ho calls
  | session verify c calls => exact Session.Reachable.run ho calls

/-- An observer that holds a snapshot holds a valid chain, by position. -/
theorem Reachable.holds (ho : o.Reachable) (hs : o.view e = some s) :
    ∃ key l, ValidChain key l ∧ o.view.Shows l := by
  cases o with
  | history h => exact ⟨_, _, (History.Reachable.sound ho).chain, h.shows_snapshots⟩
  | log l id =>
    obtain ⟨h, hh, -⟩ := Option.bind_eq_some_iff.mp hs
    refine ⟨_, _, (ho.sound id h hh).1.chain, fun i => ?_⟩
    rw [view, hh]
    exact h.shows_snapshots i
  | session verify c =>
    rcases ho.cases with rfl | ⟨tip, l, h⟩
    · cases hs
    · exact ⟨_, _, h.chain.chain, h.shows⟩

theorem Later.view_eq (h : o.Later o') (ho : o.Reachable) (hs : o.view e = some s) :
    o'.view e = some s := by
  cases h with
  | history h runs => exact (h.extends_appendAll runs).at?_eq hs
  | log l id calls =>
    obtain ⟨h, hh, hs⟩ := Option.bind_eq_some_iff.mp hs
    obtain ⟨h', hh', he⟩ := AuditLog.run_extends calls hh
    exact Option.bind_eq_some_iff.mpr ⟨h', hh', he.at?_eq hs⟩
  | session verify c calls =>
    rcases Session.Reachable.cases ho with rfl | ⟨tip, l, h⟩
    · cases hs
    · obtain ⟨tip', fresh, -, h', -⟩ := h.run verify calls
      exact h.observedAt?_append h' hs

/-- Where two observers hold snapshots with one digest, they have the same past. -/
theorem agreeAt_or_collideAt (ho : o.Reachable) (hp : p.Reachable) (hs : o.view e = some s)
    (ht : p.view e = some t) (hd : s.digest = t.digest) :
    (∀ i ≤ e, View.AgreeAt o.view p.view i) ∨ ∃ i ≤ e, View.CollideAt o.view p.view i := by
  obtain ⟨_, _, hl, hv⟩ := ho.holds hs
  obtain ⟨_, _, hm, hw⟩ := hp.holds ht
  exact View.agreeAt_or_collideAt hv hl hw hm hs ht hd

/-- Snapshots of one epoch that differ leave no way back to a common snapshot. -/
theorem differ_or_collideAt {k : Epoch} {s' t' : Snapshot} (ho : o.Reachable) (hp : p.Reachable)
    (hs : o.view k = some s) (ht : p.view k = some t) (hne : s ≠ t) (hk : k ≤ e)
    (hs' : o.view e = some s') (ht' : p.view e = some t') :
    s' ≠ t' ∧ s'.digest ≠ t'.digest ∨ ∃ i ≤ e, View.CollideAt o.view p.view i := by
  by_cases hd : s'.digest = t'.digest
  · rcases agreeAt_or_collideAt ho hp hs' ht' hd with ha | hc
    · obtain ⟨u, hsu, htu⟩ := ha k hk
      rw [hs] at hsu
      rw [ht] at htu
      cases hsu
      cases htu
      exact absurd rfl hne
    · exact .inr hc
  · exact .inl ⟨fun h => hd (congrArg Snapshot.digest h), hd⟩

namespace Sample

open KeyTransparency.Sample (key first right first_starts right_follows)

/-- A history of the branch on which the session of `Session.Sample` is not. -/
def branch : History := ⟨"directory:1", ⟨key, right⟩, [first, right]⟩

theorem branch_reachable : Observer.Reachable (.history branch) := by
  refine ⟨"directory:1", key, first, _, [[right]], History.start_eq_ok_iff.mpr ⟨first_starts, rfl⟩, ?_⟩
  have hr : List.IsChain (Snapshot.Follows key) [first, right] := .cons_cons right_follows (.singleton right)
  have ha := History.append_eq_of_isChain (h := ⟨"directory:1", ⟨key, first⟩, [first]⟩) hr
  rw [History.appendAll, List.foldl_cons, ha]
  rfl

end Sample

/-- Forks never rejoin. Two observers that hold snapshots with one digest hold the same
snapshots up to there. Once they hold different snapshots of an epoch, whatever they
come to hold of that or a later epoch differs, in its digest too. The one exception
are two snapshots with different bytes and one hash. -/
theorem forks_never_rejoin (ho : o.Reachable) (hp : p.Reachable) :
    (∀ e s t, o.view e = some s → p.view e = some t → s.digest = t.digest →
      (∀ i ≤ e, View.AgreeAt o.view p.view i) ∨ ∃ i ≤ e, View.CollideAt o.view p.view i) ∧
    (∀ o' p' k s t, o.Later o' → p.Later p' → o.view k = some s → p.view k = some t → s ≠ t →
      ∀ e s' t', k ≤ e → o'.view e = some s' → p'.view e = some t' →
        s' ≠ t' ∧ s'.digest ≠ t'.digest ∨ ∃ i ≤ e, View.CollideAt o'.view p'.view i) := by
  refine ⟨fun e s t => agreeAt_or_collideAt ho hp, ?_⟩
  intro o' p' k s t ho' hp' hs ht hne e s' t' hk hs' ht'
  exact differ_or_collideAt (ho'.reachable ho) (hp'.reachable hp) (ho'.view_eq ho hs)
    (hp'.view_eq hp ht) hne hk hs' ht'

theorem forks_never_rejoin_sample :
    Observer.Reachable (.session Commitment.verify Session.Sample.session) ∧
    Observer.Reachable (.history Sample.branch) ∧
    ((∀ i ≤ 0, View.AgreeAt Session.Sample.session.observedAt? Sample.branch.at? i) ∨
      ∃ i ≤ 0, View.CollideAt Session.Sample.session.observedAt? Sample.branch.at? i) ∧
    (KeyTransparency.Sample.left.digest ≠ KeyTransparency.Sample.right.digest ∨
      ∃ i ≤ 1, View.CollideAt Session.Sample.session.observedAt? Sample.branch.at? i) := by
  have hs : Observer.Reachable (.session Commitment.verify Session.Sample.session) :=
    Session.Sample.session_reachable
  obtain ⟨h0, h1⟩ := Session.Sample.observedAt?_session
  obtain ⟨past, future⟩ := forks_never_rejoin hs Sample.branch_reachable
  refine ⟨hs, Sample.branch_reachable, past 0 _ _ h0 rfl rfl, ?_⟩
  exact (future _ _ 1 _ _ (.session _ _ []) (.history _ []) h1 rfl KeyTransparency.Sample.left_ne_right
    1 _ _ (UInt64.le_refl 1) h1 rfl).imp_left And.right

end Observer

end KeyTransparency
