import KeyTransparency.Audit.History
import KeyTransparency.Proofs.Chain.Fork

/-!
# Histories hold valid chains

A history is sound (`History.Sound`) if its snapshots are a valid chain whose tip is
that of the history. A new history is (`start_eq_ok_iff`), so is one built from a
whole list of snapshots, which succeeds for valid chains only (`build_eq_ok_iff`),
and so is a sound history that is offered a run (`Sound.append`). What is in a
history stays as it is (`History.Extends`), and a range of a sound history is a piece
of its chain (`Sound.isRange`).
-/

namespace KeyTransparency.History

variable {h h' h'' : History} {address : String} {key : PublicKey} {first : Snapshot}
  {rest run : List Snapshot}

/-- The snapshots are a valid chain under the pinned key, which ends with the latest one. -/
def Sound (h : History) : Prop := h.tip.IsTipOf h.snapshots

/-- The history with the snapshots of `run` at its end. -/
def extended (h : History) (run : List Snapshot) : History :=
  { h with tip := h.tip.moveTo run, snapshots := h.snapshots ++ run }

/-- The history after runs of snapshots were offered to it, one after the other. -/
def appendAll (h : History) (runs : List (List Snapshot)) : History :=
  runs.foldl (fun h run => (h.append run).2) h

/-- A new history, or what became of one. -/
def Reachable (h : History) : Prop :=
  ∃ address key initial h₀ runs, start address key initial = .ok h₀ ∧ h₀.appendAll runs = h

/-- `h'` is `h`, or has more snapshots after the same ones. -/
structure Extends (h h' : History) : Prop where
  address : h'.address = h.address
  key : h'.key = h.key
  snapshots : h.snapshots <+: h'.snapshots

theorem start_eq_ok_iff :
    start address key first = .ok h ↔ first.Starts key ∧ h = ⟨address, ⟨key, first⟩, [first]⟩ := by
  simp only [start, bind_eq_ok_iff, ChainTip.pin_eq_ok_iff, pure_eq_ok_iff]
  constructor
  · rintro ⟨tip, ⟨hs, rfl⟩, hh⟩
    exact ⟨hs, hh⟩
  · rintro ⟨hs, hh⟩
    exact ⟨_, ⟨hs, rfl⟩, hh⟩

/-- A run that does not follow the latest snapshot is refused, whatever `persist` would say of
it. One that does is taken if `persist` succeeds, and leaves the history as it is if not. -/
theorem appendWith_cases {ε α : Type} (h : History) (refused : ChainError → ε)
    (persist : List Snapshot → Except ε α) (run : List Snapshot) :
    (∃ e, h.tip.check run = .error e ∧ h.appendWith refused persist run = (.error (refused e), h)) ∨
    ((h.latest :: run).IsChain (Snapshot.Follows h.key) ∧
      ((∃ e, persist run = .error e ∧ h.appendWith refused persist run = (.error e, h)) ∨
        ∃ a, persist run = .ok a ∧
          h.appendWith refused persist run = (.ok (run.length, a), h.extended run))) := by
  rcases h.tip.append_cases run with ⟨e, hc, ha⟩ | ⟨hr, ha⟩
  · exact .inl ⟨e, hc, by rw [appendWith, ha]⟩
  · refine .inr ⟨hr, ?_⟩
    cases hp : persist run with
    | error e => exact .inl ⟨e, rfl, by rw [appendWith, ha]; simp only [hp]⟩
    | ok a => exact .inr ⟨a, rfl, by rw [appendWith, ha]; simp only [hp, extended]⟩

/-- A history takes a run that follows its latest snapshot, and no other. -/
theorem append_cases (h : History) (run : List Snapshot) :
    (∃ e, h.tip.check run = .error e ∧ h.append run = (.error e, h)) ∨
    ((h.latest :: run).IsChain (Snapshot.Follows h.key) ∧
      h.append run = (.ok run.length, h.extended run)) := by
  rcases h.appendWith_cases id (fun _ => .ok ()) run with ⟨e, hc, ha⟩ | ⟨hr, ⟨e, hp, -⟩ | ⟨u, -, ha⟩⟩
  · exact .inl ⟨e, hc, by rw [append, ha]; rfl⟩
  · cases hp
  · exact .inr ⟨hr, by rw [append, ha]; rfl⟩

theorem append_eq_of_isChain (hr : (h.latest :: run).IsChain (Snapshot.Follows h.key)) :
    h.append run = (.ok run.length, h.extended run) := by
  rcases h.append_cases run with ⟨e, hc, -⟩ | ⟨-, ha⟩
  · have hk : h.tip.check run = .ok () := ChainTip.check_eq_ok_iff.mpr hr
    rw [hk] at hc
    cases hc
  · exact ha

/-! ## Soundness -/

theorem sound_of_start (hs : first.Starts key) : Sound ⟨address, ⟨key, first⟩, [first]⟩ :=
  .ofStarts hs

theorem Sound.extended (hh : h.Sound) (hr : (h.latest :: run).IsChain (Snapshot.Follows h.key)) :
    (h.extended run).Sound :=
  hh.moveTo hr

theorem Sound.append (hh : h.Sound) (run : List Snapshot) : (h.append run).2.Sound := by
  rcases h.append_cases run with ⟨e, -, ha⟩ | ⟨hr, ha⟩
  · rw [ha]; exact hh
  · rw [ha]; exact hh.extended hr

theorem Sound.appendAll (hh : h.Sound) (runs : List (List Snapshot)) : (h.appendAll runs).Sound := by
  induction runs generalizing h with
  | nil => exact hh
  | cons run runs ih => exact ih (hh.append run)

theorem Reachable.sound (hh : h.Reachable) : h.Sound := by
  obtain ⟨address, key, initial, h₀, runs, hst, rfl⟩ := hh
  obtain ⟨hs, rfl⟩ := start_eq_ok_iff.mp hst
  exact (sound_of_start hs).appendAll runs

/-- The view of a sound history is that of its chain. -/
theorem shows_snapshots (h : History) : View.Shows h.at? h.snapshots := fun _ => rfl

theorem Sound.exists_at? {e : Epoch} (hh : h.Sound) (he : e ≤ h.latest.epoch) :
    ∃ s, h.at? e = some s := by
  rw [UInt64.le_iff_toNat_le] at he
  refine h.shows_snapshots.exists_iff.mpr ?_
  rw [hh.length_eq]
  exact Nat.lt_succ_of_le he

/-- What is built is a valid chain, and every valid chain is. -/
theorem build_eq_ok_iff :
    build address key first rest = .ok h ↔
      ValidChain key (first :: rest) ∧
        h = extended ⟨address, ⟨key, first⟩, [first]⟩ rest := by
  simp only [build, bind_eq_ok_iff, start_eq_ok_iff, ValidChain.cons_iff]
  constructor
  · rintro ⟨h₀, ⟨hs, rfl⟩, hb⟩
    rcases append_cases ⟨address, ⟨key, first⟩, [first]⟩ rest with ⟨e, -, ha⟩ | ⟨hr, ha⟩
    · rw [ha] at hb; cases hb
    · rw [ha] at hb; cases hb; exact ⟨⟨hs, hr⟩, rfl⟩
  · rintro ⟨⟨hs, hr⟩, rfl⟩
    have ha := append_eq_of_isChain (h := ⟨address, ⟨key, first⟩, [first]⟩) hr
    exact ⟨_, ⟨hs, rfl⟩, by rw [ha]; rfl⟩

/-- What holds of the history of a directory, snapshot by snapshot. -/
structure ValidFor (id : DirectoryId) (h : History) : Prop where
  nonempty : h.snapshots ≠ []
  point : h.key.isPoint = true
  latest : h.snapshots.getLast? = some h.latest
  epochs : ∀ (i : Nat) (s : Snapshot), h.snapshots[i]? = some s → s.epoch.toNat = i
  signed : ∀ s ∈ h.snapshots, s.hasValidSignature h.key = true
  first : ∀ s, h.snapshots[0]? = some s →
    s.previous = Digest.zero ∧ id = DirectoryId.ofDigest s.digest
  links : ∀ (i : Nat) (s t : Snapshot), h.snapshots[i]? = some s → h.snapshots[i + 1]? = some t →
    t.previous = s.digest

theorem Sound.validFor {id : DirectoryId} (hh : h.Sound) (h0 : h.snapshots[0]? = some first)
    (hid : first.directoryId = id) : h.ValidFor id where
  nonempty := hh.chain.ne_nil
  point := hh.chain.point
  latest := hh.latest
  epochs _ _ hs := hh.chain.epoch_eq hs
  signed s hs := by
    obtain ⟨i, hi⟩ := List.mem_iff_getElem?.mp hs
    exact hh.chain.signed hi
  first s hs := by
    refine ⟨(hh.chain.starts_of_getElem? hs).previous, ?_⟩
    rw [h0, Option.some.injEq] at hs
    exact hs ▸ hid.symm
  links _ _ _ hs ht := (hh.chain.follows hs ht).previous

/-! ## Ranges -/

/-- `run` is what `h` holds from the epoch `a` to the epoch `b`. -/
structure IsRange (h : History) (a b : Epoch) (run : List Snapshot) : Prop where
  linked : run.IsChain (Snapshot.Follows h.key)
  head : run.head? = h.at? a
  last : run.getLast? = h.at? b
  mem_iff : ∀ s, s ∈ run ↔ a ≤ s.epoch ∧ s.epoch ≤ b ∧ h.at? s.epoch = some s

/-- A range is handed out if it does not descend, and ends at an epoch that is held. -/
theorem Sound.range?_eq (hh : h.Sound) (a b : Epoch) : h.range? a b =
    if a ≤ b ∧ b.toNat < h.snapshots.length then
      some ((h.snapshots.drop a.toNat).take (b.toNat + 1 - a.toNat))
    else none := by
  have hlen := hh.length_eq
  have hout : a > b ∨ b > h.tip.epoch ↔ ¬ (a ≤ b ∧ b.toNat < h.snapshots.length) := by
    simp only [gt_iff_lt, UInt64.lt_iff_toNat_lt, UInt64.le_iff_toNat_le]
    omega
  by_cases hin : a ≤ b ∧ b.toNat < h.snapshots.length
  · rw [range?, if_neg (mt hout.mp (not_not.mpr hin)), if_pos hin.2, if_pos hin]
  · rw [range?, if_pos (hout.mpr hin), if_neg hin]

theorem Sound.range?_eq_some {a b : Epoch} (hh : h.Sound) (hab : a ≤ b) (hb : b ≤ h.latest.epoch) :
    h.range? a b = some ((h.snapshots.drop a.toNat).take (b.toNat + 1 - a.toNat)) := by
  have hlen := hh.length_eq
  rw [UInt64.le_iff_toNat_le] at hb
  rw [hh.range?_eq, if_pos ⟨hab, by rw [hlen]; exact Nat.lt_succ_of_le hb⟩]

/-- A range, by position: it starts at the position of its first epoch, and ends with that
of its last. -/
theorem Sound.isRange {a b : Epoch} (hh : h.Sound) (hab : a ≤ b) (hb : b ≤ h.latest.epoch) :
    h.IsRange a b ((h.snapshots.drop a.toNat).take (b.toNat + 1 - a.toNat)) := by
  have hlen := hh.length_eq
  rw [ChainTip.epoch] at hlen
  rw [latest] at hb
  rw [UInt64.le_iff_toNat_le] at hab hb
  have hget (i : Nat) (hi : i < b.toNat + 1 - a.toNat) :
      ((h.snapshots.drop a.toNat).take (b.toNat + 1 - a.toNat))[i]? = h.snapshots[a.toNat + i]? := by
    rw [List.getElem?_take_of_lt hi, List.getElem?_drop]
  have hlen' : ((h.snapshots.drop a.toNat).take (b.toNat + 1 - a.toNat)).length =
      b.toNat + 1 - a.toNat := by
    rw [List.length_take, List.length_drop]
    omega
  refine ⟨(hh.chain.linked.drop _).take _, ?_, ?_, fun s => ?_⟩
  · rw [List.head?_eq_getElem?, hget 0 (by omega), at?, Nat.add_zero]
  · rw [List.getLast?_eq_getElem?, hlen', hget _ (by omega), at?]
    congr 1
    omega
  · constructor
    · intro hs
      obtain ⟨i, hi⟩ := List.mem_iff_getElem?.mp hs
      have hil := (List.getElem?_eq_some_iff.mp hi).1
      rw [hlen'] at hil
      rw [hget i hil] at hi
      have he := hh.chain.epoch_eq hi
      rw [UInt64.le_iff_toNat_le, UInt64.le_iff_toNat_le, at?, he]
      exact ⟨by omega, by omega, hi⟩
    · rintro ⟨has, hsb, hs⟩
      rw [UInt64.le_iff_toNat_le] at has hsb
      refine List.mem_iff_getElem?.mpr ⟨s.epoch.toNat - a.toNat, ?_⟩
      rw [hget _ (by omega), show a.toNat + (s.epoch.toNat - a.toNat) = s.epoch.toNat by omega]
      exact hs

/-! ## Growth -/

theorem Extends.refl (h : History) : h.Extends h := ⟨rfl, rfl, List.prefix_refl _⟩

theorem Extends.trans (hh : h.Extends h') (hh' : h'.Extends h'') : h.Extends h'' :=
  ⟨hh'.address.trans hh.address, hh'.key.trans hh.key, hh.snapshots.trans hh'.snapshots⟩

/-- What was held of an epoch is held of it still. -/
theorem Extends.at?_eq {e : Epoch} {s : Snapshot} (hh : h.Extends h') (hs : h.at? e = some s) :
    h'.at? e = some s := by
  obtain ⟨he, rfl⟩ := List.getElem?_eq_some_iff.mp hs
  exact List.prefix_iff_getElem?.mp hh.snapshots e.toNat he

theorem extends_extended (h : History) (run : List Snapshot) : h.Extends (h.extended run) :=
  ⟨rfl, rfl, List.prefix_append _ _⟩

theorem extends_append (h : History) (run : List Snapshot) : h.Extends (h.append run).2 := by
  rcases h.append_cases run with ⟨e, -, ha⟩ | ⟨-, ha⟩
  · rw [ha]; exact .refl h
  · rw [ha]; exact h.extends_extended run

theorem extends_appendAll (h : History) (runs : List (List Snapshot)) : h.Extends (h.appendAll runs) := by
  induction runs generalizing h with
  | nil => exact .refl h
  | cons run runs ih => exact (h.extends_append run).trans (ih _)

end KeyTransparency.History
