import KeyTransparency.Proofs.Client.Session
import KeyTransparency.Proofs.Message.Response
import KeyTransparency.Proofs.Simulation.Directory

/-!
# Answers that a session takes

An answer is taken in steps, each of which may refuse it: its snapshots, its proof, and
what it says of the name. `receive_eq_ok_iff` puts the steps side by side. Of the
snapshots, those in front have been seen and the others continue the chain
(`unseen_eq_ok_iff`), so that all of them are held once they are taken
(`Tracks.observedAt?_of_takeSnapshots`), and a run that starts inside the chain or at its
end is taken whole (`Tracks.takeSnapshots_eq`).

* `checkPromise_eq_ok_iff`, `settle_keyLookup_eq_ok_iff`, `settle_registration_eq_ok_iff`:
  what is taken as a promise, and how answers settle with promises.
-/

namespace KeyTransparency.Session

variable {verify : ProofVerifier} {c d : Session} {tip : ChainTip} {l known fresh snapshots : List Snapshot}
  {observed : Std.ExtTreeMap Epoch Snapshot} {kind : RequestKind} {r : Response} {name : String}
  {expected value : Option Bytes} {answer : MappingProof} {last : Snapshot} {promise : Option Promise}

/-! ## Snapshots -/

/-- The snapshots in front have been seen, and the first of the others has not. -/
theorem unseen_eq_ok_iff : unseen observed snapshots = .ok fresh ↔
    ∃ known, snapshots = known ++ fresh ∧ (∀ s ∈ known, observed[s.epoch]? = some s) ∧
      ∀ s ∈ fresh.head?, observed[s.epoch]? = none := by
  induction snapshots with
  | nil =>
    simp only [unseen, Except.ok.injEq, List.nil_eq_append_iff]
    constructor
    · rintro rfl
      exact ⟨[], ⟨rfl, rfl⟩, by simp⟩
    · rintro ⟨known, ⟨-, rfl⟩, -⟩
      rfl
  | cons s rest ih =>
    rw [unseen]
    cases hs : observed[s.epoch]? with
    | none =>
      simp only [Except.ok.injEq]
      constructor
      · rintro rfl
        exact ⟨[], rfl, by simp, by simpa using hs⟩
      · rintro ⟨known, he, hknown, -⟩
        cases known with
        | nil => exact he
        | cons t known =>
          cases he
          rw [hknown s (.head _)] at hs
          cases hs
    | some t =>
      by_cases hts : t = s
      · subst hts
        simp only [↓reduceIte, ih]
        constructor
        · rintro ⟨known, rfl, hknown, hfresh⟩
          exact ⟨t :: known, rfl, List.forall_mem_cons.mpr ⟨hs, hknown⟩, hfresh⟩
        · rintro ⟨known, he, hknown, hfresh⟩
          cases known with
          | nil =>
            subst he
            rw [hfresh t rfl] at hs
            cases hs
          | cons u known =>
            cases he
            exact ⟨known, rfl, (List.forall_mem_cons.mp hknown).2, hfresh⟩
      · simp only [if_neg hts, reduceCtorEq, false_iff]
        rintro ⟨known, he, hknown, hfresh⟩
        cases known with
        | nil =>
          subst he
          rw [hfresh s rfl] at hs
          cases hs
        | cons u known =>
          cases he
          rw [hknown s (.head _), Option.some.injEq] at hs
          exact hts hs.symm

/-- A session that tracks a chain holds each of its snapshots. -/
theorem Tracks.observedAt?_of_mem (h : c.Tracks tip l) {s : Snapshot} (hs : s ∈ l) :
    c.observedAt? s.epoch = some s :=
  (h.shows s.epoch).trans (h.chain.chain.getElem?_of_mem hs)

/-- Once snapshots are taken, all of them are held. -/
theorem Tracks.observedAt?_of_takeSnapshots (h : c.Tracks tip l)
    (ht : c.takeSnapshots snapshots = (.ok (), d)) :
    ∃ fresh, d = c.advanced tip fresh ∧ d.Tracks (tip.moveTo fresh) (l ++ fresh) ∧
      ∀ s ∈ snapshots, d.observedAt? s.epoch = some s := by
  rcases takeSnapshots_cases h.tip snapshots with ⟨e, he⟩ | ⟨fresh, hu, hr, he⟩
  · rw [he] at ht
    cases ht
  · rw [he] at ht
    cases ht
    have hd : (c.advanced tip fresh).Tracks (tip.moveTo fresh) (l ++ fresh) := h.advanced hr c.promises
    refine ⟨fresh, rfl, hd, fun s hs => ?_⟩
    obtain ⟨known, rfl, hknown, -⟩ := unseen_eq_ok_iff.mp hu
    rcases List.mem_append.mp hs with hs | hs
    · exact h.observedAt?_append hd (hknown s hs)
    · exact hd.observedAt?_of_mem (List.mem_append_right l hs)

/-- Snapshots that have not been seen are taken if they continue the chain. -/
theorem takeSnapshots_eq_of_unseen (ht : c.tip = some tip) (hu : unseen c.observed snapshots = .ok fresh)
    (hr : (tip.latest :: fresh).IsChain (Snapshot.Follows tip.key)) :
    c.takeSnapshots snapshots = (.ok (), c.advanced tip fresh) := by
  rw [takeSnapshots, hu]
  cases fresh with
  | nil => rw [advanced_nil ht]
  | cons s fresh =>
    simp only [ht]
    rcases tip.append_cases (s :: fresh) with ⟨e, he, -⟩ | ⟨-, ha⟩
    · rw [ChainTip.check_eq_ok_iff.mpr hr] at he
      cases he
    · rw [ha, advanced]

/-- Snapshots of the chain, and after them a run that continues it, are taken. -/
theorem Tracks.takeSnapshots_eq (h : c.Tracks tip l) (hknown : ∀ s ∈ known, s ∈ l)
    (hr : (tip.latest :: fresh).IsChain (Snapshot.Follows tip.key)) :
    c.takeSnapshots (known ++ fresh) = (.ok (), c.advanced tip fresh) := by
  refine takeSnapshots_eq_of_unseen h.tip (unseen_eq_ok_iff.mpr ⟨known, rfl, ?_, fun s hs => ?_⟩) hr
  · exact fun s hs => h.observedAt?_of_mem (hknown s hs)
  · have he := (hr.rel_head? hs).epoch
    have hlen := h.chain.length_eq
    refine (h.shows s.epoch).trans (List.getElem?_eq_none ?_)
    rw [hlen, he]
    exact Nat.le_refl _

/-- A session that tracks the beginning of a chain takes any piece of the chain that does
not start beyond its next snapshot. -/
theorem Tracks.takeSnapshots_piece {key : PublicKey} {chain : List Snapshot} {n i j : Nat}
    (hchain : ValidChain key chain) (h : c.Tracks tip (chain.take (n + 1))) (hk : tip.key = key)
    (hi : i ≤ n + 1) :
    ∃ fresh, c.takeSnapshots ((chain.drop i).take (j + 1 - i)) = (.ok (), c.advanced tip fresh) ∧
      (c.advanced tip fresh).Tracks (tip.moveTo fresh) (chain.take (max n j + 1)) := by
  by_cases hjn : j ≤ n
  · have hknown : ∀ s ∈ (chain.drop i).take (j + 1 - i), s ∈ chain.take (n + 1) := fun s hs => by
      rw [← List.drop_take] at hs
      exact List.take_subset_take_left chain (Nat.succ_le_succ hjn) (List.mem_of_mem_drop hs)
    refine ⟨[], ?_, ?_⟩
    · have ht := h.takeSnapshots_eq hknown (.singleton tip.latest)
      rwa [List.append_nil] at ht
    · rw [advanced_nil h.tip, Nat.max_eq_left hjn]
      exact h
  · -- The snapshots after the one that the session has last.
    have hsplit : chain.take (j + 1) = chain.take (n + 1) ++ (chain.drop (n + 1)).take (j - n) := by
      rw [show j + 1 = n + 1 + (j - n) by omega, List.take_add]
    have hpiece : (chain.drop i).take (j + 1 - i) =
        (chain.drop i).take (n + 1 - i) ++ (chain.drop (n + 1)).take (j - n) := by
      rw [show j + 1 - i = n + 1 - i + (j - n) by omega, List.take_add, List.drop_drop,
        show i + (n + 1 - i) = n + 1 by omega]
    have hr : (tip.latest :: (chain.drop (n + 1)).take (j - n)).IsChain (Snapshot.Follows tip.key) := by
      have hlinked := hchain.linked.take (j + 1)
      rw [hsplit, ← hk, List.isChain_append] at hlinked
      exact List.isChain_cons.mpr ⟨hlinked.2.2 tip.latest h.chain.latest, hlinked.2.1⟩
    have hknown : ∀ s ∈ (chain.drop i).take (n + 1 - i), s ∈ chain.take (n + 1) := fun s hs => by
      rw [← List.drop_take] at hs
      exact List.mem_of_mem_drop hs
    refine ⟨_, hpiece ▸ h.takeSnapshots_eq hknown hr, ?_⟩
    rw [Nat.max_eq_right (by omega), hsplit]
    exact h.advanced hr c.promises

/-! ## Whole answers -/

/-- An answer that cannot be read changes nothing. -/
theorem receive_eq_of_asProof_eq_error {e : MessageError} (hf : c.faulted = false) (ht : c.tip = some tip)
    (he : r.asProof = .error e) : c.receive verify kind r name expected = (.error (.response e), c) := by
  simp [receive, hf, ht, he]

theorem receive_eq_ok_iff : c.receive verify kind r name expected = (.ok value, d) ↔
    ∃ answer taken last promise, c.faulted = false ∧ c.tip.isSome = true ∧ r.asProof = .ok answer ∧
      c.takeSnapshots answer.snapshots = (.ok (), taken) ∧ answer.latest? = some last ∧
      taken.readValue verify kind answer name last = .ok (value, promise) ∧
      taken.settle kind name expected last value promise = .ok d := by
  constructor
  · intro h
    rw [receive] at h
    split at h <;> [cases h; rename_i hf]
    split at h <;> [cases h; rename_i hn]
    split at h <;> [cases h; rename_i answer ha]
    split at h <;> [cases h; rename_i taken ht]
    split at h <;> [cases h; rename_i last hl]
    split at h <;> [cases h; rename_i value' promise hv]
    split at h <;> [cases h; rename_i hs]
    cases h
    refine ⟨answer, taken, last, promise, by simpa using hf, ?_, ha, ht, hl, hv, hs⟩
    cases htip : c.tip with
    | none => simp [htip] at hn
    | some tip => rfl
  · rintro ⟨answer, taken, last, promise, hf, hn, ha, ht, hl, hv, hs⟩
    obtain ⟨tip, htip⟩ := Option.isSome_iff_exists.mp hn
    simp [receive, hf, htip, ha, ht, hl, hv, hs]

theorem readValue_keyLookup_eq_ok_iff :
    c.readValue verify .keyLookup answer name last = .ok (value, promise) ↔
      verify answer.proof last.root name = .ok value ∧ promise = none := by
  rw [readValue]
  cases verify answer.proof last.root name with
  | error e => simp
  | ok leaf => simp [eq_comm]

theorem readValue_registration_eq_ok_iff :
    c.readValue verify .registration answer name last = .ok (value, promise) ↔
      (∃ v, verify answer.proof last.root name = .ok (some v) ∧ value = some v ∧ promise = none) ∨
      ∃ p, verify answer.proof last.root name = .ok none ∧ c.checkPromise answer name last = .ok p ∧
        value = some p.value ∧ promise = some p := by
  rw [readValue]
  cases verify answer.proof last.root name with
  | error e => simp
  | ok leaf =>
    cases leaf with
    | none => cases c.checkPromise answer name last <;> simp [eq_comm]
    | some v => simp [eq_comm]

/-! ## Promises -/

/-- A promise is taken if it is the one asked for, and the pinned key signed it. -/
theorem checkPromise_eq_ok_iff {p : Promise} : c.checkPromise answer name last = .ok p ↔
    ∃ key, c.key? = some key ∧ answer.promise = some p ∧ p.name = name ∧ p.isBoundTo last = true ∧
      p.dueEpoch.isSome = true ∧ p.hasValidSignature key = true := by
  rw [checkPromise]
  cases c.key? with
  | none => simp
  | some key =>
    cases answer.promise with
    | none => simp
    | some promise =>
      constructor
      · intro h
        dsimp only at h
        split at h <;> [cases h; rename_i hname]
        split at h <;> [cases h; rename_i hbound]
        split at h <;> [cases h; rename_i hdue]
        split at h <;> [cases h; rename_i hsigned]
        cases h
        refine ⟨key, rfl, rfl, not_not.mp hname, by simpa using hbound, ?_, by simpa using hsigned⟩
        simpa [Option.isSome_iff_ne_none] using hdue
      · rintro ⟨key, hk, hp, hname, hbound, hdue, hsigned⟩
        cases hk
        cases hp
        obtain ⟨due, hdue⟩ := Option.isSome_iff_exists.mp hdue
        simp [hname, hbound, hdue, hsigned]

/-- A lookup settles with what was expected, and with the promise for the name. -/
theorem settle_keyLookup_eq_ok_iff : c.settle .keyLookup name expected last value none = .ok d ↔
    (expected = none ∨ expected = value) ∧ c.dischargePromise name last.epoch value = .ok d := by
  rw [settle_eq]
  split
  · rename_i he
    simp [he, bind_eq_ok_iff]
  · rename_i he
    simp [he]

/-- A registration settles with what was expected. A promise is kept in mind. -/
theorem settle_registration_eq_ok_iff : c.settle .registration name expected last value promise = .ok d ↔
    (expected = none ∨ expected = value) ∧
      d = { c with promises := promise.elim c.promises (c.promises.insert name) } := by
  rw [settle_eq]
  split
  · rename_i he
    simp [he, bind, Except.bind, eq_comm]
  · rename_i he
    simp [he]

/-- Promises that are due are the only ones in the way of a lookup. No promise is added. -/
theorem settle_keyLookup_eq_ok (hkept : ∀ promise, c.promises[name]? = some promise →
      promise.issuedAt < last.epoch → value = some promise.value) :
    ∃ promises, c.settle .keyLookup name none last value none = .ok { c with promises := promises } ∧
      ∀ (n : String) (p : Promise), promises[n]? = some p → c.promises[n]? = some p := by
  by_cases hdue : ∃ p, c.promises[name]? = some p ∧ p.issuedAt < last.epoch
  · obtain ⟨p, hp, hdue⟩ := hdue
    refine ⟨c.promises.erase name, settle_keyLookup_eq_ok_iff.mpr ⟨.inl rfl,
      dischargePromise_eq_ok_iff.mpr (.inr ⟨p, hp, hdue, hkept p hp hdue, rfl⟩)⟩, fun n p hn => ?_⟩
    rw [Std.ExtTreeMap.getElem?_erase] at hn
    split at hn
    · cases hn
    · exact hn
  · exact ⟨c.promises, settle_keyLookup_eq_ok_iff.mpr ⟨.inl rfl,
      dischargePromise_eq_ok_iff.mpr (.inl ⟨fun p hp hlt => hdue ⟨p, hp, hlt⟩, rfl⟩)⟩, fun _ _ => id⟩

namespace Sample

open Directory.Sample (key entries first second first_starts second_follows)

/-- The answer to a lookup in what was published at epoch 1. -/
def found : MappingProof := ⟨[second], Commitment.proof ⟨[], entries⟩, none⟩

/-- A session is started, and then looks a name up. -/
def lookups : List Call :=
  [.start first key.publicKey, .receive .keyLookup (.ofProof found) "alice" none]

/-- The session after the lookup. -/
def follower : Session := ⟨some ⟨key.publicKey, second⟩, false, observeAll ∅ [first, second], ∅⟩

theorem verify_found : Commitment.verify found.proof second.root "alice" = .ok (some [1]) := by decide +kernel

theorem run_lookups : run Commitment.verify .empty lookups =
    ([.started (.ok ()), .value (.ok (some [1]))], follower) := by
  have hknown : ∀ s ∈ ([] : List Snapshot), s ∈ [first] := nofun
  have htaken := (Tracks.ofStarts first_starts).takeSnapshots_eq hknown
    (.cons_cons second_follows (.singleton second))
  have hreceive : receive Commitment.verify _ .keyLookup (.ofProof found) "alice" none =
      (.ok (some [1]), follower) :=
    receive_eq_ok_iff.mpr ⟨found, _, second, none, rfl, rfl, rfl, htaken, rfl,
      readValue_keyLookup_eq_ok_iff.mpr ⟨verify_found, rfl⟩, rfl⟩
  simp only [run, lookups, runCalls, step, start_empty_eq first_starts, hreceive]

theorem validChain : ValidChain key.publicKey [first, second] :=
  ValidChain.cons_iff.mpr ⟨first_starts, .cons_cons second_follows (.singleton second)⟩

theorem follower_tracks : follower.Tracks ⟨key.publicKey, second⟩ [first, second] :=
  ⟨⟨validChain, rfl⟩, observeAll_shows (l := []) (fun e => by simp) validChain, rfl⟩

end Sample

end KeyTransparency.Session
