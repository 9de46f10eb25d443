import KeyTransparency.Proofs.Client.Outcome

/-!
# Answers that come again

An answer of a directory may be delivered twice, and may start with snapshots that have been
seen. Neither makes a difference:

* an answer that succeeded succeeds again, and the second time changes nothing
  (`Tracks.receive_again`): its snapshots have all been seen by then, a promise that it kept is
  gone, and one that it brought is put in again (`settle_again`);
* snapshots of the chain that is held, put in front of an answer that starts where they end,
  are passed over (`unseen_append_of_seen`), and the answer has the shape that it had
  (`Tracks.consecutive_after`).

* `Session.redelivery_and_bridging`: both, of every session that can come about.
-/

namespace KeyTransparency

/-- The answer with other snapshots in front of its own. -/
def MappingProof.after (answer : MappingProof) (known : List Snapshot) : MappingProof :=
  { answer with snapshots := known ++ answer.snapshots }

namespace Response

variable {status : Status} {answer : MappingProof} {known : List Snapshot}

/-- The checks that a response with an answer of a directory has to pass, in their order. -/
theorem asProof_proof : (⟨status, some (.proof answer)⟩ : Response).asProof =
    if status.isOk = false then .error (.failure status)
    else if answer.snapshots = [] then .error (.malformed .noSnapshots)
    else if consecutive answer.snapshots = false then .error (.malformed .notConsecutive)
    else .ok answer := by
  simp only [asProof, validate, Body.snapshots, Bool.not_eq_true', List.isEmpty_iff]
  cases status.isOk with
  | false => rfl
  | true =>
    by_cases hnil : answer.snapshots = []
    · simp only [hnil, ↓reduceIte]
      rfl
    · cases hc : consecutive answer.snapshots <;> simp only [hnil, ↓reduceIte] <;> rfl

/-- An answer that keeps its shape is read as before, with more snapshots. -/
theorem asProof_after (hne : answer.snapshots ≠ [])
    (hc : consecutive (known ++ answer.snapshots) = consecutive answer.snapshots) :
    (⟨status, some (.proof (answer.after known))⟩ : Response).asProof =
      (⟨status, some (.proof answer)⟩ : Response).asProof.map (·.after known) := by
  have hne' : known ++ answer.snapshots ≠ [] := List.append_ne_nil_of_right_ne_nil known hne
  rw [asProof_proof, asProof_proof, MappingProof.after, hc, if_neg hne', if_neg hne]
  split
  · rfl
  · split <;> rfl

end Response

namespace Session

variable {verify : ProofVerifier} {c d : Session} {tip : ChainTip} {l known snapshots : List Snapshot}
  {observed : Std.ExtTreeMap Epoch Snapshot} {kind : RequestKind} {r : Response} {name : String}
  {expected value : Option Bytes} {answer : MappingProof} {first last : Snapshot} {promise : Option Promise}
  {a b e : Epoch} {status : Status}

/-- The snapshots seen of the epochs from `a` on that come before `b`. -/
def seenBetween (c : Session) (a b : Epoch) : List Snapshot :=
  (List.range' a.toNat (b.toNat - a.toNat)).filterMap fun e => c.observedAt? (UInt64.ofNat e)

/-! ## Snapshots that have been seen -/

/-- By induction on the snapshots in front: each has been seen, and is passed over. -/
theorem unseen_append_of_seen (h : ∀ s ∈ known, observed[s.epoch]? = some s) :
    unseen observed (known ++ snapshots) = unseen observed snapshots := by
  induction known with
  | nil => rfl
  | cons s known ih =>
    obtain ⟨hs, hknown⟩ := List.forall_mem_cons.mp h
    simp only [List.cons_append, unseen, hs, ↓reduceIte, ih hknown]

theorem takeSnapshots_append_of_seen (h : ∀ s ∈ known, c.observedAt? s.epoch = some s) :
    c.takeSnapshots (known ++ snapshots) = c.takeSnapshots snapshots := by
  rw [takeSnapshots, takeSnapshots, unseen_append_of_seen h]

theorem takeSnapshots_of_seen (h : ∀ s ∈ snapshots, c.observedAt? s.epoch = some s) :
    c.takeSnapshots snapshots = (.ok (), c) := by
  have hskip : c.takeSnapshots (snapshots ++ []) = c.takeSnapshots [] := takeSnapshots_append_of_seen h
  rw [List.append_nil] at hskip
  exact hskip

/-! ## Settling twice -/

theorem readValue_congr (hk : d.key? = c.key?) :
    d.readValue verify kind answer name last = c.readValue verify kind answer name last := by
  simp only [readValue, checkPromise, hk]

/-- A promise that was kept is not there any more, and any other is not due. -/
theorem dischargePromise_again (h : c.dischargePromise name e value = .ok d) :
    d.dischargePromise name e value = .ok d := by
  rcases dischargePromise_eq_ok_iff.mp h with ⟨-, rfl⟩ | ⟨-, -, -, -, rfl⟩
  · exact h
  · refine dischargePromise_eq_ok_iff.mpr (.inl ⟨fun p hp => ?_, rfl⟩)
    rw [Std.ExtTreeMap.getElem?_erase_self] at hp
    cases hp

theorem insert_again (promises : Std.ExtTreeMap String Promise) (name : String) (p : Promise) :
    (promises.insert name p).insert name p = promises.insert name p := by
  refine Std.ExtTreeMap.ext_getElem? fun n => ?_
  rw [getElem?_insert, getElem?_insert]
  split <;> rfl

theorem settle_again (hv : c.readValue verify kind answer name last = .ok (value, promise))
    (hs : c.settle kind name expected last value promise = .ok d) :
    d.settle kind name expected last value promise = .ok d := by
  cases kind with
  | keyLookup =>
    obtain ⟨-, rfl⟩ := readValue_keyLookup_eq_ok_iff.mp hv
    obtain ⟨he, hd⟩ := settle_keyLookup_eq_ok_iff.mp hs
    exact settle_keyLookup_eq_ok_iff.mpr ⟨he, dischargePromise_again hd⟩
  | registration =>
    obtain ⟨he, rfl⟩ := settle_registration_eq_ok_iff.mp hs
    refine settle_registration_eq_ok_iff.mpr ⟨he, ?_⟩
    cases promise with
    | none => rfl
    | some p => simp only [Option.elim_some, insert_again]

/-- The second time all snapshots have been seen, and there is nothing left to settle. -/
theorem Tracks.receive_again (h : c.Tracks tip l)
    (hr : c.receive verify kind r name expected = (.ok value, d)) :
    d.receive verify kind r name expected = (.ok value, d) := by
  obtain ⟨answer, taken, last, promise, hf, -, ha, ht, hl, hv, hs⟩ := receive_eq_ok_iff.mp hr
  obtain ⟨fresh, rfl, -, hheld⟩ := h.observedAt?_of_takeSnapshots ht
  obtain ⟨promises, hd⟩ := settle_eq_ok hs
  have hagain : d.takeSnapshots answer.snapshots = (.ok (), d) := by
    apply takeSnapshots_of_seen
    intro s hs
    rw [hd]
    exact hheld s hs
  have hvalue : d.readValue verify kind answer name last = .ok (value, promise) := by
    rw [← hv]
    apply readValue_congr
    rw [hd]
    rfl
  refine receive_eq_ok_iff.mpr
    ⟨answer, d, last, promise, ?_, ?_, ha, hagain, hl, hvalue, settle_again hv hs⟩
  · rw [hd]
    exact hf
  · rw [hd]
    rfl

/-! ## Snapshots in front -/

theorem filterMap_getElem?_range' {i n : Nat} (h : i + n ≤ l.length) :
    (List.range' i n).filterMap (l[·]?) = (l.drop i).take n := by
  induction n generalizing i with
  | zero => rfl
  | succ n ih =>
    have hi : i < l.length := by omega
    rw [List.range'_succ, List.filterMap_cons, List.getElem?_eq_getElem hi, ih (by omega),
      List.drop_eq_getElem_cons hi, List.take_succ_cons]

/-- What has been seen between two epochs is a piece of the chain that is held. -/
theorem Tracks.seenBetween_eq (h : c.Tracks tip l) (hab : a ≤ b) (hb : b.toNat ≤ l.length) :
    c.seenBetween a b = (l.drop a.toNat).take (b.toNat - a.toNat) := by
  rw [UInt64.le_iff_toNat_le] at hab
  rw [← filterMap_getElem?_range' (by omega), seenBetween]
  refine List.filterMap_congr fun i hi => ?_
  rw [List.mem_range'_1] at hi
  have hsize : i < UInt64.size := Nat.lt_trans (show i < b.toNat by omega) b.toNat_lt_size
  rw [h.shows, UInt64.toNat_ofNat_of_lt' hsize]

theorem Tracks.length_seenBetween (h : c.Tracks tip l) (ha : a ≤ b)
    (hb : b.toNat ≤ tip.latest.epoch.toNat + 1) : (c.seenBetween a b).length = b.toNat - a.toNat := by
  have hlen := h.chain.length_eq
  rw [ChainTip.epoch] at hlen
  rw [h.seenBetween_eq ha (by omega), List.length_take, List.length_drop]
  omega

theorem Tracks.observedAt?_of_mem_seenBetween (h : c.Tracks tip l) {s : Snapshot}
    (hs : s ∈ c.seenBetween a b) : c.observedAt? s.epoch = some s := by
  obtain ⟨i, -, hi⟩ := List.mem_filterMap.mp hs
  rw [h.holdsChain.epochs _ s hi, hi]

/-- The snapshots seen before an answer starts lead up to its first snapshot. -/
theorem Tracks.consecutive_after (h : c.Tracks tip l) (hfirst : snapshots.head? = some first)
    (ha : a ≤ first.epoch) (hn : first.epoch.toNat ≤ tip.latest.epoch.toNat + 1) :
    consecutive (c.seenBetween a first.epoch ++ snapshots) = consecutive snapshots := by
  have hlen : first.epoch.toNat ≤ l.length := by
    rw [h.chain.length_eq]
    exact hn
  rw [h.seenBetween_eq ha hlen, Bool.eq_iff_iff, consecutive_iff, consecutive_iff, List.isChain_append]
  rw [UInt64.le_iff_toNat_le] at ha
  refine ⟨fun hc => hc.2.1, fun hc => ⟨?_, hc, fun s hs t ht => ?_⟩⟩
  · exact ((h.chain.chain.linked.drop _).take _).imp fun s t hst => hst.epoch
  · -- The last of the snapshots in front is the one before the first of the answer.
    rw [hfirst, Option.mem_some_iff] at ht
    subst ht
    rw [List.getLast?_eq_getElem?, List.length_take, List.length_drop] at hs
    obtain ⟨hi, -⟩ := List.getElem?_eq_some_iff.mp hs
    rw [List.length_take, List.length_drop] at hi
    rw [List.getElem?_take_of_lt (by omega), List.getElem?_drop] at hs
    have hepoch := h.chain.chain.epoch_eq hs
    omega

/-- Both answers are refused before their snapshots are looked at, or have the same snapshots
that have not been seen, the same last snapshot and the same proof. -/
theorem Tracks.receive_after (h : c.Tracks tip l) (hfirst : answer.snapshots.head? = some first)
    (ha : a ≤ first.epoch) (hn : first.epoch.toNat ≤ tip.latest.epoch.toNat + 1) :
    c.receive verify kind ⟨status, some (.proof (answer.after (c.seenBetween a first.epoch)))⟩ name expected =
      c.receive verify kind ⟨status, some (.proof answer)⟩ name expected := by
  have hne : answer.snapshots ≠ [] := by
    intro hnil
    rw [hnil] at hfirst
    cases hfirst
  have hseen : ∀ s ∈ c.seenBetween a first.epoch, c.observedAt? s.epoch = some s :=
    fun s hs => h.observedAt?_of_mem_seenBetween hs
  have hlatest : (answer.after (c.seenBetween a first.epoch)).latest? = answer.latest? :=
    List.getLast?_append_of_ne_nil _ hne
  rw [receive, receive, Response.asProof_after hne (h.consecutive_after hfirst ha hn)]
  cases hread : (⟨status, some (.proof answer)⟩ : Response).asProof with
  | error e => rfl
  | ok answer' =>
    have hbody := (Response.asProof_eq_ok_iff.mp hread).2.1
    cases hbody
    have htaken : c.takeSnapshots (answer.after (c.seenBetween a first.epoch)).snapshots =
        c.takeSnapshots answer.snapshots := takeSnapshots_append_of_seen hseen
    simp only [Except.map, htaken, hlatest]
    rfl

namespace Sample

open Directory.Sample (second)

theorem promisee_tracks :
    promisee.Tracks ⟨Directory.Sample.key.publicKey, Directory.Sample.first⟩ [Directory.Sample.first] :=
  awaiting_tracks _

/-- The promise is kept by the answer. -/
theorem receive_found_promisee :
    ∃ d, promisee.receive Commitment.verify .keyLookup (.ofProof found) "alice" (some [1]) =
      (.ok (some [1]), d) :=
  promisee_tracks.exists_receive_eq_ok_iff.mpr ⟨rfl, found, second, rfl, rfl, takes_found⟩

theorem seenBetween_promisee : promisee.seenBetween 0 1 = [Directory.Sample.first] :=
  promisee_tracks.seenBetween_eq (by decide) (by decide)

end Sample

/-- Of every session that can come about: an answer that succeeded succeeds again when it is
delivered once more, with the same value, and leaves the session exactly as it was left. And an
answer that starts at an epoch that has been seen, or just after, does the same and leaves the
same as the answer with the snapshots in front that have been seen from any epoch on before it
starts, none of which is missing. -/
theorem redelivery_and_bridging (hc : Reachable verify c) (kind : RequestKind) (name : String)
    (expected : Option Bytes) :
    (∀ r value d, c.receive verify kind r name expected = (.ok value, d) →
      d.receive verify kind r name expected = (.ok value, d)) ∧
    ∀ latest status answer first a, c.latest? = some latest → answer.snapshots.head? = some first →
      first.epoch.toNat ≤ latest.epoch.toNat + 1 → a ≤ first.epoch →
      (c.seenBetween a first.epoch).length = first.epoch.toNat - a.toNat ∧
      c.receive verify kind ⟨status, some (.proof (answer.after (c.seenBetween a first.epoch)))⟩ name expected =
        c.receive verify kind ⟨status, some (.proof answer)⟩ name expected := by
  rcases hc.cases with rfl | ⟨tip, l, h⟩
  · exact ⟨nofun, nofun⟩
  · refine ⟨fun r value d => h.receive_again, ?_⟩
    intro latest status answer first a hlatest hfirst hn ha
    rw [h.holdsChain.isLatest, Option.some.injEq] at hlatest
    subst hlatest
    exact ⟨h.length_seenBetween ha hn, h.receive_after hfirst ha hn⟩

theorem redelivery_and_bridging_sample :
    Reachable Commitment.verify Sample.promisee ∧
    (∃ d, Sample.promisee.receive Commitment.verify .keyLookup (.ofProof Sample.found) "alice" (some [1]) =
        (.ok (some [1]), d) ∧
      d.receive Commitment.verify .keyLookup (.ofProof Sample.found) "alice" (some [1]) = (.ok (some [1]), d)) ∧
    Sample.promisee.receive Commitment.verify .keyLookup
        ⟨.ok, some (.proof (Sample.found.after [Directory.Sample.first]))⟩ "alice" (some [1]) =
      Sample.promisee.receive Commitment.verify .keyLookup (.ofProof Sample.found) "alice" (some [1]) := by
  have h := redelivery_and_bridging Sample.promisee_reachable .keyLookup "alice" (some [1])
  obtain ⟨d, hd⟩ := Sample.receive_found_promisee
  refine ⟨Sample.promisee_reachable, ⟨d, hd, h.1 _ _ _ hd⟩, ?_⟩
  have hafter := (h.2 _ .ok Sample.found Directory.Sample.second 0 rfl rfl (by decide) (by decide)).2
  rwa [show Directory.Sample.second.epoch = 1 from rfl, Sample.seenBetween_promisee] at hafter

end Session

end KeyTransparency
