import KeyTransparency.Proofs.Client.Promises

/-!
# Which answers succeed, and what they change

An answer succeeds if its snapshots agree with the chain that the session holds and continue
it, if its proof or its promise gives the name a value (`Session.Gives`), and if that value is
the one expected and the one promised (`Session.Takes`). The session then holds the snapshots
of the answer that are new to it (`Session.GrownBy`), and the promises about other names are
what they were (`Session.Leads`).

The steps of an answer are put side by side by `receive_eq_ok_iff`. Here each is said of the
chain that is held: `Tracks.unseen_eq_ok_iff`, `Tracks.takeSnapshots_eq_ok_iff`,
`exists_readValue_eq_ok_iff`, `exists_settle_eq_ok_iff`.

* `Session.receive_verdict`: which answers succeed, with which value, and what is held after.
-/

namespace KeyTransparency

/-- The promise is about the name, was made under the snapshot, comes due at some epoch, and
is signed with the key. -/
structure Promise.Backs (p : Promise) (key : PublicKey) (name : String) (under : Snapshot) : Prop where
  name : p.name = name
  issuedAt : p.issuedAt = under.epoch
  snapshotDigest : p.snapshotDigest = under.digest
  due : ∃ due, p.dueEpoch = some due
  signed : p.hasValidSignature key = true

theorem Response.pairwise_epoch_of_asProof {r : Response} {answer : MappingProof} (h : r.asProof = .ok answer) :
    answer.snapshots.Pairwise fun s t => s.epoch < t.epoch := by
  let Before (s t : Snapshot) : Prop := s.epoch < t.epoch
  have : Trans Before Before Before := ⟨UInt64.lt_trans⟩
  have hc := consecutive_iff.mp (Response.asProof_eq_ok_iff.mp h).2.2.2
  refine List.IsChain.pairwise (R := Before) (hc.imp fun s t hst => ?_)
  show s.epoch < t.epoch
  rw [UInt64.lt_iff_toNat_lt, hst]
  exact Nat.lt_succ_self _

namespace Session

/-- The snapshots of an answer that come after `latest`. -/
def beyond (latest : Snapshot) (snapshots : List Snapshot) : List Snapshot :=
  snapshots.filter fun s => latest.epoch < s.epoch

/-- `d` holds what `c` does, and the snapshots of an answer that come after the latest one. -/
structure GrownBy (c d : Session) (latest : Snapshot) (snapshots : List Snapshot) : Prop where
  key : d.key? = c.key?
  state : d.state = c.state
  observed : ∀ e s, d.observedAt? e = some s ↔
    c.observedAt? e = some s ∨ s ∈ snapshots ∧ s.epoch = e ∧ latest.epoch < e
  latest : ∃ s, d.latest? = some s ∧ d.observedAt? s.epoch = some s ∧
    ∀ e t, d.observedAt? e = some t → e ≤ s.epoch

/-- The promise that is held for the name comes due at the epoch or before. -/
def DueBy (c : Session) (name : String) (e : Epoch) (p : Promise) : Prop :=
  c.promise? name = some p ∧ ∃ due, p.dueEpoch = some due ∧ due ≤ e

/-- The value of the name, as the answer has it under its last snapshot: what its proof leads
to, or, where a registration finds that the name has no value, what is promised. -/
def Gives (verify : ProofVerifier) (key : PublicKey) (kind : RequestKind) (answer : MappingProof)
    (name : String) (last : Snapshot) (value : Option Bytes) : Prop :=
  ∃ leaf, verify answer.proof last.root name = .ok leaf ∧
    (¬ (kind = .registration ∧ leaf = none) ∧ value = leaf ∨
      kind = .registration ∧ leaf = none ∧
        ∃ p, answer.promise = some p ∧ p.Backs key name last ∧ value = some p.value)

/-- What a session with the given key and latest snapshot asks of an answer. -/
structure Takes (verify : ProofVerifier) (c : Session) (key : PublicKey) (latest : Snapshot)
    (kind : RequestKind) (answer : MappingProof) (last : Snapshot) (name : String)
    (expected value : Option Bytes) : Prop where
  seen : ∀ s ∈ answer.snapshots, s.epoch ≤ latest.epoch → c.observedAt? s.epoch = some s
  linked : (latest :: beyond latest answer.snapshots).IsChain (Snapshot.Follows key)
  gives : Gives verify key kind answer name last value
  expected : ∀ v, expected = some v → value = some v
  kept : kind = .keyLookup → ∀ p, c.DueBy name last.epoch p → value = some p.value

/-- What a successful answer makes of the session `c`. -/
structure Leads (verify : ProofVerifier) (c d : Session) (latest : Snapshot) (kind : RequestKind)
    (answer : MappingProof) (last : Snapshot) (name : String) : Prop where
  grown : c.GrownBy d latest answer.snapshots
  others : ∀ n, n ≠ name → d.promise? n = c.promise? n
  fulfilled : kind = .keyLookup → ∀ p, c.DueBy name last.epoch p → d.promise? name = none
  pending : kind = .keyLookup → (∀ p, ¬ c.DueBy name last.epoch p) → d.promise? name = c.promise? name
  promised : kind = .registration → verify answer.proof last.root name = .ok none →
    d.promise? name = answer.promise ∧ answer.promise.isSome = true
  found : kind = .registration → ∀ v, verify answer.proof last.root name = .ok (some v) →
    d.promise? name = c.promise? name

variable {verify : ProofVerifier} {c d : Session} {tip : ChainTip} {l fresh snapshots : List Snapshot}
  {kind : RequestKind} {r : Response} {name : String} {expected value : Option Bytes} {answer : MappingProof}
  {latest last : Snapshot} {promise : Option Promise} {p : Promise} {key : PublicKey} {e : Epoch}

/-! ## Snapshots -/

theorem mem_beyond {s : Snapshot} : s ∈ beyond latest snapshots ↔ s ∈ snapshots ∧ latest.epoch < s.epoch := by
  simp [beyond]

/-- By induction on the snapshots: the first one that has not been seen is beyond the latest,
and with it all that come after it. -/
theorem Tracks.unseen_eq_ok_iff (h : c.Tracks tip l) (hs : snapshots.Pairwise fun s t => s.epoch < t.epoch) :
    unseen c.observed snapshots = .ok fresh ↔
      (∀ s ∈ snapshots, s.epoch ≤ tip.latest.epoch → c.observedAt? s.epoch = some s) ∧
        fresh = beyond tip.latest snapshots := by
  induction snapshots with
  | nil => simp [unseen, beyond, eq_comm]
  | cons s rest ih =>
    obtain ⟨hrest, hpairwise⟩ := List.pairwise_cons.mp hs
    rw [unseen]
    cases hseen : c.observed[s.epoch]? with
    | none =>
      have hbeyond : ∀ t ∈ s :: rest, tip.latest.epoch < t.epoch := by
        have hlt : tip.latest.epoch < s.epoch := by
          rw [← UInt64.not_le, ← h.holdsChain.held]
          rintro ⟨t, ht⟩
          rw [observedAt?, hseen] at ht
          cases ht
        exact List.forall_mem_cons.mpr ⟨hlt, fun t ht => UInt64.lt_trans hlt (hrest t ht)⟩
      have hall : beyond tip.latest (s :: rest) = s :: rest :=
        List.filter_eq_self.mpr fun t ht => decide_eq_true (hbeyond t ht)
      rw [hall, Except.ok.injEq, eq_comm]
      exact (and_iff_right fun t ht hle => absurd (hbeyond t ht) (UInt64.not_lt.mpr hle)).symm
    | some t =>
      have hle : s.epoch ≤ tip.latest.epoch := (h.holdsChain.held s.epoch).mp ⟨t, hseen⟩
      have hall : beyond tip.latest (s :: rest) = beyond tip.latest rest :=
        List.filter_cons_of_neg (by simpa using hle)
      have hs : c.observedAt? s.epoch = some s ↔ t = s := by rw [observedAt?, hseen, Option.some.injEq]
      rw [hall, List.forall_mem_cons, hs]
      by_cases hts : t = s
      · simp only [hts, ↓reduceIte, ih hpairwise, true_and, implies_true]
      · simp only [hts, ↓reduceIte, reduceCtorEq, false_iff]
        exact fun hn => hn.1.1 hle

/-- Snapshots are taken if those of the epochs that are held are those held, and the others
continue the chain. -/
theorem Tracks.takeSnapshots_eq_ok_iff (h : c.Tracks tip l)
    (hs : snapshots.Pairwise fun s t => s.epoch < t.epoch) :
    c.takeSnapshots snapshots = (.ok (), d) ↔
      (∀ s ∈ snapshots, s.epoch ≤ tip.latest.epoch → c.observedAt? s.epoch = some s) ∧
        (tip.latest :: beyond tip.latest snapshots).IsChain (Snapshot.Follows tip.key) ∧
          d = c.advanced tip (beyond tip.latest snapshots) := by
  constructor
  · intro ht
    rcases takeSnapshots_cases h.tip snapshots with ⟨e, he⟩ | ⟨fresh, hu, hr, he⟩
    · rw [he] at ht
      cases ht
    · obtain ⟨hseen, rfl⟩ := (h.unseen_eq_ok_iff hs).mp hu
      rw [he] at ht
      cases ht
      exact ⟨hseen, hr, rfl⟩
  · rintro ⟨hseen, hr, rfl⟩
    exact takeSnapshots_eq_of_unseen h.tip ((h.unseen_eq_ok_iff hs).mpr ⟨hseen, rfl⟩) hr

theorem Tracks.grownBy_advanced (h : c.Tracks tip l)
    (hr : (tip.latest :: beyond tip.latest snapshots).IsChain (Snapshot.Follows tip.key))
    (promises : Std.ExtTreeMap String Promise) :
    c.GrownBy { c.advanced tip (beyond tip.latest snapshots) with promises := promises } tip.latest snapshots := by
  have hd := h.advanced hr promises
  refine ⟨by simp [key?, h.tip, Session.advanced, ChainTip.moveTo], by simp [state, h.tip, Session.advanced],
    fun e s => ⟨fun hs => ?_, ?_⟩, ⟨_, hd.holdsChain.isLatest, hd.holdsChain.observedLatest, ?_⟩⟩
  · by_cases he : e ≤ tip.latest.epoch
    · obtain ⟨t, ht⟩ := (h.holdsChain.held e).mpr he
      rw [h.observedAt?_append hd ht, Option.some.injEq] at hs
      exact .inl (hs ▸ ht)
    · -- The positions after those of the chain are those of the snapshots put in.
      have hepoch := hd.holdsChain.epochs e s hs
      have hlen := h.chain.length_eq
      rw [UInt64.le_iff_toNat_le] at he
      rw [hd.shows, List.getElem?_append_right (by rw [hlen, ChainTip.epoch]; omega)] at hs
      obtain ⟨hmem, hlt⟩ := mem_beyond.mp (List.mem_of_getElem? hs)
      exact .inr ⟨hmem, hepoch, hepoch ▸ hlt⟩
  · rintro (hs | ⟨hs, rfl, hlt⟩)
    · exact h.observedAt?_append hd hs
    · exact hd.observedAt?_of_mem (List.mem_append_right l (mem_beyond.mpr ⟨hs, hlt⟩))
  · exact fun e t ht => (hd.holdsChain.held e).mp ⟨t, ht⟩

/-! ## Values and promises -/

theorem dueBy_iff : c.DueBy name e p ↔ c.promise? name = some p ∧ p.issuedAt < e :=
  and_congr_right' Promise.exists_due_le_iff

theorem checkPromise_eq_ok_iff_backs (hk : c.key? = some key) :
    c.checkPromise answer name last = .ok p ↔ answer.promise = some p ∧ p.Backs key name last := by
  rw [checkPromise_eq_ok_iff]
  constructor
  · rintro ⟨key', hk', hp, hname, hbound, hdue, hsigned⟩
    rw [hk, Option.some.injEq] at hk'
    subst hk'
    rw [Promise.isBoundTo, Bool.and_eq_true, decide_eq_true_iff, decide_eq_true_iff] at hbound
    exact ⟨hp, hname, hbound.1, hbound.2, Option.isSome_iff_exists.mp hdue, hsigned⟩
  · rintro ⟨hp, hb⟩
    refine ⟨key, hk, hp, hb.name, ?_, Option.isSome_iff_exists.mpr hb.due, hb.signed⟩
    rw [Promise.isBoundTo, Bool.and_eq_true, decide_eq_true_iff, decide_eq_true_iff]
    exact ⟨hb.issuedAt, hb.snapshotDigest⟩

theorem exists_readValue_eq_ok_iff (hk : c.key? = some key) :
    (∃ promise, c.readValue verify kind answer name last = .ok (value, promise)) ↔
      Gives verify key kind answer name last value := by
  cases kind with
  | keyLookup => simp [readValue_keyLookup_eq_ok_iff, Gives]
  | registration =>
    simp only [readValue_registration_eq_ok_iff, checkPromise_eq_ok_iff_backs hk, Gives]
    constructor
    · rintro ⟨promise, ⟨v, hproof, rfl, -⟩ | ⟨p, hproof, ⟨hp, hb⟩, rfl, -⟩⟩
      · exact ⟨some v, hproof, .inl ⟨by simp, rfl⟩⟩
      · exact ⟨none, hproof, .inr ⟨trivial, rfl, p, hp, hb, rfl⟩⟩
    · rintro ⟨leaf, hproof, ⟨hleaf, rfl⟩ | ⟨-, rfl, p, hp, hb, rfl⟩⟩
      · obtain ⟨v, rfl⟩ : ∃ v, value = some v := Option.ne_none_iff_exists'.mp fun hn => hleaf ⟨trivial, hn⟩
        exact ⟨none, .inl ⟨v, hproof, rfl, rfl⟩⟩
      · exact ⟨some p, .inr ⟨p, hproof, ⟨hp, hb⟩, rfl, rfl⟩⟩

/-- A value that was read settles if it is the one expected, and, for a lookup, the one
promised. -/
theorem exists_settle_eq_ok_iff (hr : c.readValue verify kind answer name last = .ok (value, promise)) :
    (∃ d, c.settle kind name expected last value promise = .ok d) ↔
      (∀ v, expected = some v → value = some v) ∧
        (kind = .keyLookup → ∀ p, c.DueBy name last.epoch p → value = some p.value) := by
  have hexpected : (expected = none ∨ expected = value) ↔ ∀ v, expected = some v → value = some v := by
    cases expected <;> simp [eq_comm]
  cases kind with
  | registration => simp [settle_registration_eq_ok_iff, hexpected]
  | keyLookup =>
    obtain ⟨-, rfl⟩ := readValue_keyLookup_eq_ok_iff.mp hr
    simp only [settle_keyLookup_eq_ok_iff, hexpected, exists_and_left, forall_const, dueBy_iff]
    refine and_congr_right fun _ => ?_
    simp only [dischargePromise_eq_ok_iff]
    constructor
    · rintro ⟨d, ⟨hn, -⟩ | ⟨p, hp, hdue, hvalue, -⟩⟩ q ⟨hq, hlt⟩
      · exact absurd hlt (hn q hq)
      · rw [show q = p from Option.some.inj (hq.symm.trans hp)]
        exact hvalue
    · intro hkept
      by_cases hdue : ∃ p, c.promises[name]? = some p ∧ p.issuedAt < last.epoch
      · obtain ⟨p, hp, hlt⟩ := hdue
        exact ⟨_, .inr ⟨p, hp, hlt, hkept p ⟨hp, hlt⟩, rfl⟩⟩
      · exact ⟨c, .inl ⟨fun p hp hlt => hdue ⟨p, hp, hlt⟩, rfl⟩⟩

/-! ## Whole answers -/

/-- What becomes of the promises when an answer succeeds. The rest of the session is given. -/
theorem leads_of_receive (h : c.receive verify kind r name expected = (.ok value, d))
    (ha : r.asProof = .ok answer) (hl : answer.latest? = some last)
    (hgrown : c.GrownBy d latest answer.snapshots) : Leads verify c d latest kind answer last name := by
  have hothers : ∀ n, n ≠ name → d.promise? n = c.promise? n := fun n hn => by
    have hkeep : (c.receive verify kind r name expected).2.promise? n = c.promise? n :=
      promise?_receive_of_ne hn.symm
    rwa [h] at hkeep
  cases kind with
  | keyLookup =>
    have hkind : RequestKind.keyLookup ≠ .registration := by decide
    rcases receive_keyLookup_of_eq_ok h ha hl with ⟨hn, hd⟩ | ⟨p, hp, hlt, -, hd⟩
    · exact ⟨hgrown, hothers, fun _ p hdue => absurd (dueBy_iff.mp hdue).2 (hn p hdue.1),
        fun _ _ => congrArg (·[name]?) hd, (absurd · hkind), (absurd · hkind)⟩
    · refine ⟨hgrown, hothers, fun _ _ _ => ?_, fun _ hn => absurd (dueBy_iff.mpr ⟨hp, hlt⟩) (hn p),
        (absurd · hkind), (absurd · hkind)⟩
      rw [promise?, hd]
      exact Std.ExtTreeMap.getElem?_erase_self
  | registration =>
    have hkind : RequestKind.registration ≠ .keyLookup := by decide
    rcases receive_registration_of_eq_ok h ha hl with ⟨⟨v, hproof⟩, hd⟩ | ⟨p, hproof, hp, -, hd⟩
    · exact ⟨hgrown, hothers, (absurd · hkind), (absurd · hkind), fun _ hnone => by simp [hnone] at hproof,
        fun _ _ _ => congrArg (·[name]?) hd⟩
    · refine ⟨hgrown, hothers, (absurd · hkind), (absurd · hkind), fun _ _ => ⟨?_, by simp [hp]⟩, fun _ v hsome => ?_⟩
      · rw [promise?, hd, hp]
        exact Std.ExtTreeMap.getElem?_insert_self
      · simp [hsome] at hproof

theorem key?_advanced (ht : c.tip = some tip) : (c.advanced tip fresh).key? = c.key? := by
  simp [key?, advanced, ht, ChainTip.moveTo]

theorem Tracks.exists_receive_eq_ok_iff (h : c.Tracks tip l) :
    (∃ d, c.receive verify kind r name expected = (.ok value, d)) ↔
      c.faulted = false ∧ ∃ answer last, r.asProof = .ok answer ∧ answer.latest? = some last ∧
        c.Takes verify tip.key tip.latest kind answer last name expected value := by
  have hkey (fresh : List Snapshot) : (c.advanced tip fresh).key? = some tip.key :=
    (key?_advanced h.tip).trans h.holdsChain.pinned
  simp only [receive_eq_ok_iff]
  constructor
  · rintro ⟨d, answer, taken, last, promise, hf, -, ha, ht, hl, hv, hs⟩
    obtain ⟨hseen, hr, rfl⟩ := (h.takeSnapshots_eq_ok_iff (Response.pairwise_epoch_of_asProof ha)).mp ht
    obtain ⟨hexpected, hkept⟩ := (exists_settle_eq_ok_iff hv).mp ⟨d, hs⟩
    exact ⟨hf, answer, last, ha, hl, hseen, hr, (exists_readValue_eq_ok_iff (hkey _)).mp ⟨promise, hv⟩,
      hexpected, hkept⟩
  · rintro ⟨hf, answer, last, ha, hl, ht⟩
    have htaken := (h.takeSnapshots_eq_ok_iff (Response.pairwise_epoch_of_asProof ha)).mpr ⟨ht.seen, ht.linked, rfl⟩
    obtain ⟨promise, hv⟩ := (exists_readValue_eq_ok_iff (hkey (beyond tip.latest answer.snapshots))).mpr ht.gives
    obtain ⟨d, hs⟩ := (exists_settle_eq_ok_iff hv).mpr ⟨ht.expected, ht.kept⟩
    exact ⟨d, answer, _, last, promise, hf, by rw [h.tip]; rfl, ha, htaken, hl, hv, hs⟩

theorem Tracks.leads_of_receive (h : c.Tracks tip l)
    (hreceive : c.receive verify kind r name expected = (.ok value, d)) :
    ∃ answer last, r.asProof = .ok answer ∧ answer.latest? = some last ∧
      c.Leads verify d tip.latest kind answer last name := by
  obtain ⟨answer, taken, last, promise, -, -, ha, ht, hl, -, hs⟩ := receive_eq_ok_iff.mp hreceive
  obtain ⟨-, hr, rfl⟩ := (h.takeSnapshots_eq_ok_iff (Response.pairwise_epoch_of_asProof ha)).mp ht
  obtain ⟨promises, rfl⟩ := settle_eq_ok hs
  exact ⟨answer, last, ha, hl, Session.leads_of_receive hreceive ha hl (h.grownBy_advanced hr promises)⟩

theorem Tracks.state_eq_tracking_iff (h : c.Tracks tip l) : c.state = .tracking ↔ c.faulted = false := by
  rw [state, h.tip]
  cases c.faulted <;> simp

namespace Sample

open Directory.Sample (key first second first_starts second_follows)

/-- The session at epoch 0 that holds the promise of what is published at epoch 1. -/
def promisee : Session := awaiting ((∅ : Std.ExtTreeMap String Promise).insert "alice" promised)

theorem promisee_reachable : Reachable Commitment.verify promisee := by
  refine ⟨[.start first key.publicKey, .receive .registration (.ofProof (registered promised)) "alice" none], ?_⟩
  have hstart : Session.empty.start first key.publicKey = (.ok (), awaiting ∅) := start_empty_eq first_starts
  simp only [run, runCalls, step, hstart, receive_registered (checkPromise_promised ∅), promisee]

theorem promise?_promisee : promisee.promise? "alice" = some promised := Std.ExtTreeMap.getElem?_insert_self

/-- The promise is due at epoch 1, and kept. -/
theorem takes_found : promisee.Takes Commitment.verify Directory.Sample.key.publicKey first .keyLookup found second "alice"
    (some [1]) (some [1]) where
  seen := by decide +kernel
  linked := by
    rw [show beyond first found.snapshots = [second] by decide +kernel]
    exact .cons_cons second_follows (.singleton second)
  gives := ⟨some [1], verify_found, .inl ⟨by simp, rfl⟩⟩
  expected _ := id
  kept _ p hp := by
    rw [show p = promised from Option.some.inj (hp.1.symm.trans promise?_promisee)]
    rfl

end Sample

/-- Of every session that can come about: an answer succeeds with a value exactly if the
session is in track, and the answer has all that `Takes` asks for. What is held then has grown
by the new snapshots of the answer. Of the promises at most that for the name changes: a lookup
is done with one that is due, and a registration puts the promise in that it rests on. -/
theorem receive_verdict (hc : Reachable verify c) (kind : RequestKind) (r : Response) (name : String)
    (expected : Option Bytes) :
    (∀ value, (c.receive verify kind r name expected).1 = .ok value ↔
      ∃ key latest answer last, c.state = .tracking ∧ c.key? = some key ∧ c.latest? = some latest ∧
        r.asProof = .ok answer ∧ answer.latest? = some last ∧
        c.Takes verify key latest kind answer last name expected value) ∧
    ∀ value d, c.receive verify kind r name expected = (.ok value, d) →
      ∃ latest answer last, c.latest? = some latest ∧ r.asProof = .ok answer ∧ answer.latest? = some last ∧
        c.Leads verify d latest kind answer last name := by
  rcases hc.cases with rfl | ⟨tip, l, h⟩
  · refine ⟨fun value => ⟨nofun, ?_⟩, nofun⟩
    rintro ⟨key, latest, answer, last, hstate, -⟩
    cases hstate
  · constructor
    · intro value
      have hexists : (c.receive verify kind r name expected).1 = .ok value ↔
          ∃ d, c.receive verify kind r name expected = (.ok value, d) :=
        ⟨fun he => ⟨_, Prod.ext he rfl⟩, fun ⟨_, he⟩ => congrArg Prod.fst he⟩
      rw [hexists, h.exists_receive_eq_ok_iff, ← h.state_eq_tracking_iff]
      constructor
      · rintro ⟨hstate, answer, last, ha, hl, ht⟩
        exact ⟨tip.key, tip.latest, answer, last, hstate, h.holdsChain.pinned, h.holdsChain.isLatest, ha, hl, ht⟩
      · rintro ⟨key, latest, answer, last, hstate, hk, hn, ha, hl, ht⟩
        rw [h.holdsChain.pinned, Option.some.injEq] at hk
        rw [h.holdsChain.isLatest, Option.some.injEq] at hn
        subst hk hn
        exact ⟨hstate, answer, last, ha, hl, ht⟩
    · intro value d hreceive
      obtain ⟨answer, last, ha, hl, hleads⟩ := h.leads_of_receive hreceive
      exact ⟨tip.latest, answer, last, h.holdsChain.isLatest, ha, hl, hleads⟩

theorem receive_verdict_sample :
    Reachable Commitment.verify Sample.promisee ∧
    Sample.promisee.promise? "alice" = some Sample.promised ∧
    ∃ d, Sample.promisee.receive Commitment.verify .keyLookup (.ofProof Sample.found) "alice" (some [1]) =
        (.ok (some [1]), d) ∧
      d.promise? "alice" = none ∧ d.observedAt? 1 = some Directory.Sample.second := by
  obtain ⟨hvalue, hleads⟩ := receive_verdict Sample.promisee_reachable .keyLookup (.ofProof Sample.found) "alice"
    (some [1])
  have hok := (hvalue (some [1])).mpr ⟨_, _, Sample.found, Directory.Sample.second, rfl, rfl, rfl, rfl, rfl,
    Sample.takes_found⟩
  refine ⟨Sample.promisee_reachable, Sample.promise?_promisee, _, Prod.ext hok rfl, ?_⟩
  obtain ⟨latest, answer, last, hn, ha, hl, h⟩ := hleads _ _ (Prod.ext hok rfl)
  cases hn
  cases ha
  cases hl
  exact ⟨h.fulfilled rfl Sample.promised ⟨Sample.promise?_promisee, 1, by decide⟩,
    (h.grown.observed _ _).mpr (.inr ⟨.head _, rfl, by decide⟩)⟩

end KeyTransparency.Session
