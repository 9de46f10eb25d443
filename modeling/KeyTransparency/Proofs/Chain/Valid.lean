import KeyTransparency.Chain.Tip
import KeyTransparency.Proofs.Basic
import Mathlib.Data.List.Chain

/-!
# Valid chains

A list of snapshots is a valid chain under a key (`ValidChain`) if its first
snapshot may start one (`Snapshot.Starts`) and every other follows the one
before it (`Snapshot.Follows`). The checks at admission decide exactly this:

* `checkInitial_eq_ok_iff`, `checkLink_eq_ok_iff`, `checkRun_eq_ok_iff`: what each
  of the checks accepts;
* `status_of_checkRun_eq_error`: what a run is told that is refused under a point;
* `ChainTip.append_cases`: what a tip does with a run;
* `ChainTip.IsTipOf.moveTo`: a tip that takes a run is the tip of the longer chain;
* `ValidChain.epoch_eq`, `ValidChain.follows`: a valid chain by position.
-/

namespace KeyTransparency

/-- `s` may be the first snapshot of a chain under `key`. -/
structure Snapshot.Starts (key : PublicKey) (s : Snapshot) : Prop where
  epoch : s.epoch = 0
  previous : s.previous = Digest.zero
  signed : s.hasValidSignature key = true

/-- `s` may be the snapshot after `before` in a chain under `key`. -/
structure Snapshot.Follows (key : PublicKey) (before s : Snapshot) : Prop where
  epoch : s.epoch.toNat = before.epoch.toNat + 1
  previous : s.previous = before.digest
  signed : s.hasValidSignature key = true

/-- A chain under `key`, from epoch 0 on. -/
structure ValidChain (key : PublicKey) (l : List Snapshot) : Prop where
  point : key.isPoint = true
  starts : ∃ s, l[0]? = some s ∧ s.Starts key
  linked : l.IsChain (Snapshot.Follows key)

theorem Snapshot.isPoint_of_hasValidSignature {key : PublicKey} {s : Snapshot}
    (h : s.hasValidSignature key = true) : key.isPoint = true :=
  PublicKey.isPoint_of_verify h

/-- The epochs of a chain ascend. -/
theorem Snapshot.pairwise_epoch_of_isChain {key : PublicKey} {l : List Snapshot}
    (h : l.IsChain (Snapshot.Follows key)) : l.Pairwise fun s t => s.epoch < t.epoch := by
  let Before (s t : Snapshot) : Prop := s.epoch < t.epoch
  have : Trans Before Before Before := ⟨UInt64.lt_trans⟩
  refine List.IsChain.pairwise (R := Before) (h.imp fun s t hst => ?_)
  show s.epoch < t.epoch
  rw [UInt64.lt_iff_toNat_lt, hst.epoch]
  exact Nat.lt_succ_self _

/-! ## What the checks accept -/

theorem checkInitial_eq_ok_iff {key : PublicKey} {s : Snapshot} :
    checkInitial key s = .ok () ↔ s.Starts key := by
  constructor
  · intro h
    simp only [checkInitial] at h
    split at h <;> [cases h; rename_i h0]
    split at h <;> [cases h; rename_i h1]
    split at h <;> [cases h; skip]
    split at h <;> [cases h; rename_i h3]
    exact ⟨by simpa using h0, by simpa using h1, by simpa using h3⟩
  · intro h
    have hk := Snapshot.isPoint_of_hasValidSignature h.signed
    simp [checkInitial, h.epoch, h.previous, hk, h.signed]

theorem checkLink_eq_ok_iff {key : PublicKey} {before s : Snapshot} :
    checkLink key before s = .ok () ↔ Snapshot.Follows key before s := by
  constructor
  · intro h
    simp only [checkLink] at h
    split at h <;> [cases h; rename_i h0]
    split at h <;> [cases h; rename_i h1]
    split at h <;> [cases h; skip]
    split at h <;> [cases h; rename_i h3]
    rw [not_not] at h0 h1
    exact ⟨Epoch.next?_eq_some_iff.mp h0, h1, by simpa using h3⟩
  · intro h
    have hk := Snapshot.isPoint_of_hasValidSignature h.signed
    have hn := Epoch.next?_eq_some_iff.mpr h.epoch
    simp [checkLink, hn, h.previous, hk, h.signed]

theorem checkRun_eq_ok_iff {key : PublicKey} {before : Snapshot} {run : List Snapshot} :
    checkRun key before run = .ok () ↔ (before :: run).IsChain (Snapshot.Follows key) := by
  induction run generalizing before with
  | nil => simp [checkRun]
  | cons s run ih =>
    rw [List.isChain_cons_cons, ← checkLink_eq_ok_iff, ← ih, checkRun, bind_eq_ok_iff]
    exact ⟨fun ⟨_, hs, hr⟩ => ⟨hs, hr⟩, fun ⟨hs, hr⟩ => ⟨(), hs, hr⟩⟩

theorem status_of_checkLink_eq_error {key : PublicKey} {before s : Snapshot} {e : ChainError}
    (hk : key.isPoint = true) (h : checkLink key before s = .error e) : e.status = .invalidChain := by
  simp only [checkLink, hk, Bool.not_true, Bool.false_eq_true, ↓reduceIte] at h
  split at h
  · cases h
    rfl
  · split at h
    · cases h
      rfl
    · split at h
      · cases h
        rfl
      · cases h

/-- By induction on the run: the first snapshot that is refused decides. -/
theorem status_of_checkRun_eq_error {key : PublicKey} {before : Snapshot} {run : List Snapshot} {e : ChainError}
    (hk : key.isPoint = true) (h : checkRun key before run = .error e) : e.status = .invalidChain := by
  induction run generalizing before with
  | nil => cases h
  | cons s run ih =>
    rw [checkRun] at h
    cases hs : checkLink key before s with
    | error e' =>
      rw [hs] at h
      cases h
      exact status_of_checkLink_eq_error hk hs
    | ok u =>
      rw [hs] at h
      exact ih h

/-! ## Chains by position -/

namespace ValidChain

variable {key : PublicKey} {l : List Snapshot} {s t : Snapshot}

theorem cons_iff : ValidChain key (s :: l) ↔
    s.Starts key ∧ (s :: l).IsChain (Snapshot.Follows key) := by
  constructor
  · rintro ⟨-, ⟨t, ht, hs⟩, hl⟩
    cases ht
    exact ⟨hs, hl⟩
  · rintro ⟨hs, hl⟩
    exact ⟨Snapshot.isPoint_of_hasValidSignature hs.signed, ⟨s, rfl, hs⟩, hl⟩

theorem singleton (h : s.Starts key) : ValidChain key [s] :=
  cons_iff.mpr ⟨h, .singleton s⟩

/-- A valid chain goes on with any run that follows its last snapshot. -/
theorem append {run : List Snapshot} (h : ValidChain key l) (hl : l.getLast? = some s)
    (hr : (s :: run).IsChain (Snapshot.Follows key)) : ValidChain key (l ++ run) := by
  obtain ⟨first, h0, hs⟩ := h.starts
  refine ⟨h.point, ⟨first, ?_, hs⟩, h.linked.append hr.tail fun a ha b hb => ?_⟩
  · rw [List.getElem?_append_left (List.getElem?_eq_some_iff.mp h0).1, h0]
  · rw [hl, Option.mem_some_iff] at ha
    exact ha ▸ hr.rel_head? hb

/-- A valid chain is valid wherever it is cut off. -/
theorem of_append {run : List Snapshot} (h : ValidChain key (l ++ run)) (hne : l ≠ []) : ValidChain key l := by
  cases l with
  | nil => exact absurd rfl hne
  | cons s l => exact cons_iff.mpr ⟨(cons_iff.mp h).1, (List.isChain_append.mp h.linked).1⟩

theorem follows (h : ValidChain key l) {i : Nat} (hs : l[i]? = some s) (ht : l[i + 1]? = some t) :
    Snapshot.Follows key s t := by
  obtain ⟨hi, rfl⟩ := List.getElem?_eq_some_iff.mp hs
  obtain ⟨hj, rfl⟩ := List.getElem?_eq_some_iff.mp ht
  exact h.linked.getElem i hj

theorem starts_of_getElem? (h : ValidChain key l) (hs : l[0]? = some s) : s.Starts key := by
  obtain ⟨first, h0, hf⟩ := h.starts
  rw [h0, Option.some.injEq] at hs
  exact hs ▸ hf

/-- The snapshot at a position is the one of that epoch. -/
theorem epoch_eq (h : ValidChain key l) {i : Nat} (hs : l[i]? = some s) : s.epoch.toNat = i := by
  induction i generalizing s with
  | zero => rw [(h.starts_of_getElem? hs).epoch]; rfl
  | succ i ih =>
    have hi : i < l.length := by have := (List.getElem?_eq_some_iff.mp hs).1; omega
    have hb := List.getElem?_eq_getElem hi
    rw [(h.follows hb hs).epoch, ih hb]

theorem getElem?_of_mem (h : ValidChain key l) (hs : s ∈ l) : l[s.epoch.toNat]? = some s := by
  obtain ⟨i, hi⟩ := List.mem_iff_getElem?.mp hs
  rw [h.epoch_eq hi, hi]

theorem signed (h : ValidChain key l) {i : Nat} (hs : l[i]? = some s) :
    s.hasValidSignature key = true := by
  cases i with
  | zero => exact (h.starts_of_getElem? hs).signed
  | succ i =>
    have hi : i < l.length := by have := (List.getElem?_eq_some_iff.mp hs).1; omega
    exact (h.follows (List.getElem?_eq_getElem hi) hs).signed

theorem ne_nil (h : ValidChain key l) : l ≠ [] := by
  rintro rfl
  obtain ⟨s, h0, -⟩ := h.starts
  cases h0

end ValidChain

/-! ## Tips -/

namespace ChainTip

variable {tip : ChainTip} {l run : List Snapshot}

/-- A valid chain with the key and the latest snapshot of the tip. -/
structure IsTipOf (tip : ChainTip) (l : List Snapshot) : Prop where
  chain : ValidChain tip.key l
  latest : l.getLast? = some tip.latest

theorem pin_eq_ok_iff {key : PublicKey} {s : Snapshot} :
    pin key s = .ok tip ↔ s.Starts key ∧ tip = ⟨key, s⟩ := by
  rw [← checkInitial_eq_ok_iff, pin, bind_eq_ok_iff]
  simp only [pure_eq_ok_iff]
  exact ⟨fun ⟨_, hs, ht⟩ => ⟨hs, ht⟩, fun ⟨hs, ht⟩ => ⟨(), hs, ht⟩⟩

theorem check_eq_ok_iff :
    tip.check run = .ok () ↔ (tip.latest :: run).IsChain (Snapshot.Follows tip.key) :=
  checkRun_eq_ok_iff

/-- A tip takes a run that follows its latest snapshot, and no other. -/
theorem append_cases (tip : ChainTip) (run : List Snapshot) :
    (∃ e, tip.check run = .error e ∧ tip.append run = (.error e, tip)) ∨
    ((tip.latest :: run).IsChain (Snapshot.Follows tip.key) ∧
      tip.append run = (.ok run.length, tip.moveTo run)) := by
  cases h : tip.check run with
  | error e => exact .inl ⟨e, rfl, by rw [append, h]⟩
  | ok u => exact .inr ⟨check_eq_ok_iff.mp h, by rw [append, h]⟩

namespace IsTipOf

theorem ofStarts {key : PublicKey} {s : Snapshot} (h : s.Starts key) :
    IsTipOf ⟨key, s⟩ [s] :=
  ⟨.singleton h, rfl⟩

theorem moveTo (h : tip.IsTipOf l) (hr : (tip.latest :: run).IsChain (Snapshot.Follows tip.key)) :
    (tip.moveTo run).IsTipOf (l ++ run) := by
  refine ⟨h.chain.append h.latest hr, ?_⟩
  rw [List.getLast?_append, h.latest]
  cases run with
  | nil => rfl
  | cons s run => simp [ChainTip.moveTo, List.getLast?_cons]

/-- What makes the chain a longer valid chain is what follows its latest snapshot. -/
theorem append_iff (h : tip.IsTipOf l) :
    ValidChain tip.key (l ++ run) ↔ (tip.latest :: run).IsChain (Snapshot.Follows tip.key) := by
  refine ⟨fun hv => ?_, h.chain.append h.latest⟩
  obtain ⟨-, hr, hlink⟩ := List.isChain_append.mp hv.linked
  exact List.isChain_cons.mpr ⟨hlink tip.latest h.latest, hr⟩

/-- The latest snapshot of a chain is the one of its last position. -/
theorem length_eq (h : tip.IsTipOf l) : l.length = tip.epoch.toNat + 1 := by
  have hl := h.latest
  rw [List.getLast?_eq_getElem?] at hl
  have hp := List.length_pos_iff.mpr h.chain.ne_nil
  have := h.chain.epoch_eq hl
  rw [ChainTip.epoch]
  omega

end IsTipOf

end ChainTip

/-! ## A chain that forks -/

namespace Sample

/-- The public key of the seed of 32 bytes 7. -/
def key : PublicKey :=
  ⟨Block32.ofNatLE 0x2cd2461469ea1e42927bbebeae764795f9c52e137b50f5be0a529ce2636c4aea⟩

def first : Snapshot :=
  ⟨0, Digest.zero, Digest.zero,
    ⟨Block32.ofNatLE 0x4804592a85ec8a79652fad1794ee19cf3d44da0de6e6c1c419891f5c20cf256d,
      Block32.ofNatLE 0x68b0599e4b759e06455495fd1184079312c336efc8dea281b5c6fe358c5edbd⟩⟩

/-- The snapshot of epoch 1 on one branch. -/
def left : Snapshot :=
  ⟨1, Digest.zero, first.digest,
    ⟨Block32.ofNatLE 0x45bf1a0937bd72fc9bbd593ef84d613bc343effb71ec1092943e59ee3bcc2fe4,
      Block32.ofNatLE 0x5accf46a51317c40a2390c5d711e4e83743b0d3879566e2c1c0675624802060⟩⟩

/-- The snapshot of epoch 1 on another branch. -/
def right : Snapshot :=
  ⟨1, ⟨Block32.replicate 1⟩, first.digest,
    ⟨Block32.ofNatLE 0x5c2bb18679c62fbfda40efc9ba8c01af5d7b94dbafac9279b3cfc88cef6b7249,
      Block32.ofNatLE 0x6a5f564347230d03a7a7c183918cb8b7560945f222ab58f606eb422ca0280f6⟩⟩

theorem first_starts : first.Starts key := ⟨rfl, rfl, by decide +kernel⟩

theorem left_follows : Snapshot.Follows key first left := ⟨rfl, rfl, by decide +kernel⟩

theorem right_follows : Snapshot.Follows key first right := ⟨rfl, rfl, by decide +kernel⟩

theorem left_ne_right : left ≠ right := by decide

end Sample

end KeyTransparency
