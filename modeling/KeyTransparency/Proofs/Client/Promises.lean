import KeyTransparency.Proofs.Client.Receive

/-!
# Promises over the run of a session

A session keeps, of every name, the promise that it took last (`Promised.promise?`), and a
lookup that succeeds when the promise is due has found what was promised (`LookedUp.value_eq`)
and is done with it. Nothing else touches a promise (`promise?_step`), whatever is asked in
between, so that a promise is held until a lookup is made that it is due for:

* `promised_value_found`: the first such lookup finds the promised value, if no other
  promise was taken for the name meanwhile.

A promise that is taken for the same name takes the place of the one before, whose value
is then asked for no longer (`promise_displaced_sample`).
-/

namespace KeyTransparency.Session

/-- The name was registered, and the session took the promise for it: the answer proves
that the name has no value yet. -/
def Promised (verify : ProofVerifier) (name : String) (p : Promise) (call : Call) (reply : Reply) : Prop :=
  ∃ r expected answer last, call = .receive .registration r name expected ∧
    reply = .value (.ok (some p.value)) ∧ r.asProof = .ok answer ∧ answer.latest? = some last ∧
    verify answer.proof last.root name = .ok none ∧ answer.promise = some p

/-- The name was looked up with success, in an answer whose last snapshot is that of the
epoch `e`. -/
def LookedUp (name : String) (e : Epoch) (value : Option Bytes) (call : Call) (reply : Reply) : Prop :=
  ∃ r expected answer last, call = .receive .keyLookup r name expected ∧ reply = .value (.ok value) ∧
    r.asProof = .ok answer ∧ answer.latest? = some last ∧ last.epoch = e

/-- The session has not seen yet that the name has the value, as was promised at the epoch
`issuedAt`. -/
def Awaits (c : Session) (name : String) (value : Bytes) (issuedAt : Epoch) : Prop :=
  ∃ p, c.promise? name = some p ∧ p.value = value ∧ p.issuedAt = issuedAt

/-- The call `n` of the run and the reply to it are as said. -/
def ExchangeAt (verify : ProofVerifier) (c : Session) (calls : List Call) (n : Nat)
    (said : Call → Reply → Prop) : Prop :=
  ∃ call reply, calls[n]? = some call ∧ (run verify c calls).1[n]? = some reply ∧ said call reply

variable {verify : ProofVerifier} {c d : Session} {calls : List Call} {call : Call} {kind : RequestKind}
  {r : Response} {name : String} {expected value : Option Bytes} {answer : MappingProof} {last : Snapshot}
  {promise : Option Promise} {p : Promise} {e : Epoch}

/-! ## One answer -/

theorem promises_takeSnapshots (c : Session) (snapshots : List Snapshot) :
    (c.takeSnapshots snapshots).2.promises = c.promises := by
  rw [takeSnapshots]
  split
  · rfl
  · rfl
  · split
    · rfl
    · split <;> rfl

/-- An answer that is refused leaves all promises. -/
theorem promises_of_receive_eq_error {error : SessionError}
    (h : c.receive verify kind r name expected = (.error error, d)) : d.promises = c.promises := by
  rw [receive] at h
  split at h
  · cases h; rfl
  split at h
  · cases h; rfl
  split at h
  · cases h; rfl
  rename_i answer _
  have hp := c.promises_takeSnapshots answer.snapshots
  split at h
  · rename_i ht
    rw [ht] at hp
    cases h
    exact hp
  · -- The snapshots stay taken, whatever the answer is refused for.
    rename_i taken ht
    rw [ht] at hp
    split at h
    · cases h; exact hp
    split at h
    · cases h; exact hp
    split at h <;> cases h
    exact hp

/-- What an answer is read as and settled to, in a session that has its snapshots and the
promises of before. -/
theorem exists_settle_of_eq_ok (h : c.receive verify kind r name expected = (.ok value, d))
    (ha : r.asProof = .ok answer) (hl : answer.latest? = some last) :
    ∃ (taken : Session) (promise : Option Promise), taken.promises = c.promises ∧
      taken.readValue verify kind answer name last = .ok (value, promise) ∧
      taken.settle kind name expected last value promise = .ok d := by
  obtain ⟨answer', taken, last', promise, -, -, ha', ht, hl', hv, hs⟩ := receive_eq_ok_iff.mp h
  rw [ha, Except.ok.injEq] at ha'
  subst ha'
  rw [hl, Option.some.injEq] at hl'
  subst hl'
  have hp := c.promises_takeSnapshots answer.snapshots
  rw [ht] at hp
  exact ⟨taken, promise, hp, hv, hs⟩

/-- A registration that succeeds has found a value, or puts in the promise of one. -/
theorem receive_registration_of_eq_ok (h : c.receive verify .registration r name expected = (.ok value, d))
    (ha : r.asProof = .ok answer) (hl : answer.latest? = some last) :
    ((∃ v, verify answer.proof last.root name = .ok (some v)) ∧ d.promises = c.promises) ∨
    ∃ p, verify answer.proof last.root name = .ok none ∧ answer.promise = some p ∧ value = some p.value ∧
      d.promises = c.promises.insert name p := by
  obtain ⟨taken, promise, hp, hv, hs⟩ := exists_settle_of_eq_ok h ha hl
  obtain ⟨-, rfl⟩ := settle_registration_eq_ok_iff.mp hs
  rw [← hp]
  rcases readValue_registration_eq_ok_iff.mp hv with ⟨v, hproof, -, rfl⟩ | ⟨p, hproof, hcheck, hvalue, rfl⟩
  · exact .inl ⟨⟨v, hproof⟩, rfl⟩
  · obtain ⟨-, -, hanswer, -⟩ := checkPromise_eq_ok_iff.mp hcheck
    exact .inr ⟨p, hproof, hanswer, hvalue, rfl⟩

/-- A lookup that succeeds at a promise that is due has found what was promised, and is done
with it. -/
theorem receive_keyLookup_of_eq_ok (h : c.receive verify .keyLookup r name expected = (.ok value, d))
    (ha : r.asProof = .ok answer) (hl : answer.latest? = some last) :
    ((∀ p, c.promises[name]? = some p → ¬ p.issuedAt < last.epoch) ∧ d.promises = c.promises) ∨
    ∃ p, c.promises[name]? = some p ∧ p.issuedAt < last.epoch ∧ value = some p.value ∧
      d.promises = c.promises.erase name := by
  obtain ⟨taken, promise, hp, hv, hs⟩ := exists_settle_of_eq_ok h ha hl
  obtain ⟨-, rfl⟩ := readValue_keyLookup_eq_ok_iff.mp hv
  rw [← hp]
  rcases dischargePromise_eq_ok_iff.mp (settle_keyLookup_eq_ok_iff.mp hs).2 with ⟨hn, rfl⟩ | ⟨p, hget, hdue, hvalue, rfl⟩
  · exact .inl ⟨hn, rfl⟩
  · exact .inr ⟨p, hget, hdue, hvalue, rfl⟩

/-- An answer about a name leaves the promises for all others. -/
theorem promise?_receive_of_ne {name' : String} (hname : name' ≠ name) :
    (c.receive verify kind r name' expected).2.promise? name = c.promise? name := by
  cases h : c.receive verify kind r name' expected with
  | mk result d =>
    cases result with
    | error error => exact congrArg (·[name]?) (promises_of_receive_eq_error h)
    | ok value =>
      obtain ⟨answer, -, last, -, -, -, ha, -, hl, -⟩ := receive_eq_ok_iff.mp h
      cases kind with
      | registration =>
        rcases receive_registration_of_eq_ok h ha hl with ⟨-, hd⟩ | ⟨p, -, -, -, hd⟩
        · exact congrArg (·[name]?) hd
        · rw [promise?, hd, getElem?_insert, if_neg hname]
          rfl
      | keyLookup =>
        rcases receive_keyLookup_of_eq_ok h ha hl with ⟨-, hd⟩ | ⟨p, -, -, -, hd⟩
        · exact congrArg (·[name]?) hd
        · rw [promise?, hd, Std.ExtTreeMap.getElem?_erase, if_neg (by simpa using hname)]
          rfl

/-! ## One call -/

/-- The promise that was taken is held, in place of any other for the name. -/
theorem Promised.promise? (h : Promised verify name p call (step verify c call).1) :
    (step verify c call).2.promise? name = some p := by
  obtain ⟨r, expected, answer, last, rfl, hreply, ha, hl, hproof, hanswer⟩ := h
  rw [step, Reply.value.injEq] at hreply
  rcases receive_registration_of_eq_ok (Prod.ext hreply rfl) ha hl with ⟨⟨v, hv⟩, -⟩ | ⟨q, -, hq, -, hd⟩
  · rw [hproof] at hv
    cases hv
  · rw [hanswer, Option.some.injEq] at hq
    subst hq
    rw [Session.promise?, step, hd]
    exact Std.ExtTreeMap.getElem?_insert_self

/-- What is looked up when a promise is due is what was promised. -/
theorem LookedUp.value_eq {v : Bytes} {issuedAt : Epoch} (h : LookedUp name e value call (step verify c call).1)
    (hc : c.Awaits name v issuedAt) (hdue : issuedAt < e) : value = some v := by
  obtain ⟨r, expected, answer, last, rfl, hreply, ha, hl, rfl⟩ := h
  obtain ⟨p, hp, rfl, rfl⟩ := hc
  rw [step, Reply.value.injEq] at hreply
  rcases receive_keyLookup_of_eq_ok (Prod.ext hreply rfl) ha hl with ⟨hn, -⟩ | ⟨q, hq, -, hv, -⟩
  · exact absurd hdue (hn p hp)
  · rw [show q = p from Option.some.inj (hq.symm.trans hp)] at hv
    exact hv

/-- A call leaves the promise for a name, puts one in that it took, or finds what was
promised. -/
theorem promise?_step (verify : ProofVerifier) (c : Session) (call : Call) (name : String) :
    (step verify c call).2.promise? name = c.promise? name ∨
    (∃ p, Promised verify name p call (step verify c call).1 ∧
      (step verify c call).2.promise? name = some p) ∨
    ∃ p e, LookedUp name e (some p.value) call (step verify c call).1 ∧
      c.promise? name = some p ∧ p.issuedAt < e := by
  cases call with
  | crossCheck r => exact .inl rfl
  | start initial key =>
    rcases c.start_cases initial key with ⟨e, he⟩ | ⟨-, -, he⟩
    · exact .inl (by rw [step, he])
    · exact .inl (by rw [step, he]; rfl)
  | receive kind r name' expected =>
    by_cases hname : name' = name
    swap
    · exact .inl (promise?_receive_of_ne hname)
    subst hname
    rw [step]
    cases h : c.receive verify kind r name' expected with
    | mk result d =>
      cases result with
      | error error => exact .inl (congrArg (·[name']?) (promises_of_receive_eq_error h))
      | ok value =>
        obtain ⟨answer, -, last, -, -, -, ha, -, hl, -⟩ := receive_eq_ok_iff.mp h
        cases kind with
        | registration =>
          rcases receive_registration_of_eq_ok h ha hl with ⟨-, hd⟩ | ⟨p, hproof, hanswer, rfl, hd⟩
          · exact .inl (congrArg (·[name']?) hd)
          · refine .inr (.inl ⟨p, ⟨r, expected, answer, last, rfl, rfl, ha, hl, hproof, hanswer⟩, ?_⟩)
            rw [promise?, hd]
            exact Std.ExtTreeMap.getElem?_insert_self
        | keyLookup =>
          rcases receive_keyLookup_of_eq_ok h ha hl with ⟨-, hd⟩ | ⟨p, hget, hdue, rfl, -⟩
          · exact .inl (congrArg (·[name']?) hd)
          · exact .inr (.inr ⟨p, last.epoch, ⟨r, expected, answer, last, rfl, rfl, ha, hl, rfl⟩, hget, hdue⟩)

/-! ## Runs -/

/-- The call is made in the session that the calls before it lead to. -/
theorem exchangeAt_iff {n : Nat} {said : Call → Reply → Prop} : ExchangeAt verify c calls n said ↔
    ∃ call, calls[n]? = some call ∧ said call (step verify (run verify c (calls.take n)).2 call).1 := by
  constructor
  · rintro ⟨call, reply, hcall, hreply, h⟩
    rw [run, (runCalls_take_succ (step verify) c hcall).1, Option.some.injEq] at hreply
    subst hreply
    exact ⟨call, hcall, h⟩
  · rintro ⟨call, hcall, h⟩
    exact ⟨call, _, hcall, (runCalls_take_succ (step verify) c hcall).1, h⟩

/-- By induction on the calls after the promise was taken: none of them is a lookup that the
promise is due for, or takes a promise of something else. -/
theorem awaits_of_promised {i j k : Nat} (htaken : ExchangeAt verify c calls i (Promised verify name p))
    (hlookups : ∀ n e value, i < n → n < j → ExchangeAt verify c calls n (LookedUp name e value) → ¬ p.issuedAt < e)
    (hpromises : ∀ n q, i < n → n < j → ExchangeAt verify c calls n (Promised verify name q) →
      q.value = p.value ∧ q.issuedAt = p.issuedAt)
    (hj : j ≤ calls.length) (hik : i < k) (hkj : k ≤ j) :
    (run verify c (calls.take k)).2.Awaits name p.value p.issuedAt := by
  induction k, hik using Nat.le_induction with
  | base =>
    obtain ⟨call, hcall, htaken⟩ := exchangeAt_iff.mp htaken
    rw [run, (runCalls_take_succ (step verify) c hcall).2]
    exact ⟨p, htaken.promise?, rfl, rfl⟩
  | succ k hik ih =>
    obtain ⟨q, hq, hvalue, hissued⟩ := ih (Nat.le_of_succ_le hkj)
    obtain ⟨call, hcall⟩ : ∃ call, calls[k]? = some call := ⟨_, List.getElem?_eq_getElem (Nat.lt_of_lt_of_le hkj hj)⟩
    rw [run, (runCalls_take_succ (step verify) c hcall).2]
    rcases promise?_step verify (run verify c (calls.take k)).2 call name with
      hsame | ⟨q', hq', hnext⟩ | ⟨q', e, hfound, hq', hdue⟩
    · exact ⟨q, hsame.trans hq, hvalue, hissued⟩
    · exact ⟨q', hnext, hpromises k q' hik hkj (exchangeAt_iff.mpr ⟨_, hcall, hq'⟩)⟩
    · rw [hq, Option.some.injEq] at hq'
      subst hq'
      exact absurd (hissued ▸ hdue) (hlookups k e _ hik hkj (exchangeAt_iff.mpr ⟨_, hcall, hfound⟩))

namespace Sample

open Directory.Sample (key first second first_starts second_follows)

/-- The promise of what is published at epoch 1. -/
def promised : Promise :=
  ⟨"alice", [1], first.digest, 0,
    ⟨Block32.ofNatLE 0xcae4d0ac2baad64e8617f87b5a2156263a409b1d1bde553f1f9ce7e2b57317cb,
      Block32.ofNatLE 0x3ed2ee86168196bce8512daf4b8c211f4d909b497177752d705ba64fcd2ee8⟩⟩

/-- A promise of something else. -/
def broken : Promise :=
  ⟨"alice", [2], first.digest, 0,
    ⟨Block32.ofNatLE 0xeba763cf0153e7fb1d4bda84df0c778858f59d468041d287906626bee9436e82,
      Block32.ofNatLE 0x83b5e5c7d841d45572512c4641c66abbdf964028c6cec11bde4b9ee2bccb95f⟩⟩

/-- The answer to a registration at epoch 0. -/
def registered (p : Promise) : MappingProof := ⟨[first], Commitment.proof ⟨[], ∅⟩, some p⟩

/-- A name is registered twice, and looked up after the next publication. -/
def registrations (p q : Promise) : List Call :=
  [.start first key.publicKey, .receive .registration (.ofProof (registered p)) "alice" none,
    .receive .registration (.ofProof (registered q)) "alice" none,
    .receive .keyLookup (.ofProof found) "alice" none]

/-- The session at epoch 0, with promises. -/
def awaiting (promises : Std.ExtTreeMap String Promise) : Session :=
  ⟨some ⟨key.publicKey, first⟩, false, observeAll ∅ [first], promises⟩

theorem awaiting_tracks (promises : Std.ExtTreeMap String Promise) :
    (awaiting promises).Tracks ⟨key.publicKey, first⟩ [first] :=
  (Tracks.ofStarts first_starts).advanced (.singleton first) promises

theorem checkPromise_promised (promises : Std.ExtTreeMap String Promise) :
    (awaiting promises).checkPromise (registered promised) "alice" first = .ok promised :=
  checkPromise_eq_ok_iff.mpr ⟨_, rfl, rfl, rfl, by simp [Promise.isBoundTo, promised, first], rfl, by decide +kernel⟩

theorem checkPromise_broken (promises : Std.ExtTreeMap String Promise) :
    (awaiting promises).checkPromise (registered broken) "alice" first = .ok broken :=
  checkPromise_eq_ok_iff.mpr ⟨_, rfl, rfl, rfl, by simp [Promise.isBoundTo, broken, first], rfl, by decide +kernel⟩

theorem verify_registered : Commitment.verify (Commitment.proof ⟨[], ∅⟩) first.root "alice" = .ok none := by
  decide +kernel

theorem receive_registered {promises : Std.ExtTreeMap String Promise} {p : Promise}
    (hp : (awaiting promises).checkPromise (registered p) "alice" first = .ok p) :
    (awaiting promises).receive Commitment.verify .registration (.ofProof (registered p)) "alice" none =
      (.ok (some p.value), awaiting (promises.insert "alice" p)) := by
  have htaken : (awaiting promises).takeSnapshots [first] = (.ok (), awaiting promises) :=
    (awaiting_tracks promises).takeSnapshots_eq (fun _ => id) (.singleton first)
  exact receive_eq_ok_iff.mpr ⟨registered p, _, first, some p, rfl, rfl, rfl, htaken, rfl,
    readValue_registration_eq_ok_iff.mpr (.inr ⟨p, verify_registered, hp, rfl, rfl⟩),
    settle_registration_eq_ok_iff.mpr ⟨.inl rfl, rfl⟩⟩

theorem receive_found {promises : Std.ExtTreeMap String Promise} (hp : promises["alice"]? = some promised) :
    ((awaiting promises).receive Commitment.verify .keyLookup (.ofProof found) "alice" none).1 =
      .ok (some [1]) := by
  have hknown : ∀ s ∈ ([] : List Snapshot), s ∈ [first] := nofun
  have htaken := (awaiting_tracks promises).takeSnapshots_eq hknown (.cons_cons second_follows (.singleton second))
  have hkept (promise : Promise)
      (hget : ((awaiting promises).advanced ⟨key.publicKey, first⟩ [second]).promises["alice"]? = some promise)
      (_ : promise.issuedAt < second.epoch) : (some [1] : Option Bytes) = some promise.value := by
    rw [show promise = promised from Option.some.inj (hget.symm.trans hp)]
    rfl
  obtain ⟨promises', hs, -⟩ := settle_keyLookup_eq_ok hkept
  exact congrArg Prod.fst (receive_eq_ok_iff.mpr ⟨found, _, second, none, rfl, rfl, rfl, htaken, rfl,
    readValue_keyLookup_eq_ok_iff.mpr ⟨verify_found, rfl⟩, hs⟩)

theorem replies_registrations {p : Promise}
    (hp : ∀ promises, (awaiting promises).checkPromise (registered p) "alice" first = .ok p) :
    (run Commitment.verify .empty (registrations p promised)).1 =
      [.started (.ok ()), .value (.ok (some p.value)), .value (.ok (some [1])), .value (.ok (some [1]))] := by
  have hstart : step Commitment.verify .empty (.start first key.publicKey) = (.started (.ok ()), awaiting ∅) := by
    rw [step, start_empty_eq first_starts]
    rfl
  have hregister {promises : Std.ExtTreeMap String Promise} {q : Promise}
      (hq : (awaiting promises).checkPromise (registered q) "alice" first = .ok q) :
      step Commitment.verify (awaiting promises) (.receive .registration (.ofProof (registered q)) "alice" none) =
        (.value (.ok (some q.value)), awaiting (promises.insert "alice" q)) := by
    rw [step, receive_registered hq]
  have hfound : (step Commitment.verify (awaiting ((Std.ExtTreeMap.insert ∅ "alice" p).insert "alice" promised))
      (.receive .keyLookup (.ofProof found) "alice" none)).1 = .value (.ok (some [1])) := by
    rw [step, receive_found Std.ExtTreeMap.getElem?_insert_self]
  rw [run, registrations, runCalls, hstart, runCalls, hregister (hp _), runCalls,
    hregister (checkPromise_promised _), runCalls, hfound]
  rfl

theorem promised_registrations {p : Promise}
    (hp : ∀ promises, (awaiting promises).checkPromise (registered p) "alice" first = .ok p) :
    ExchangeAt Commitment.verify .empty (registrations p promised) 1 (Promised Commitment.verify "alice" p) :=
  ⟨_, _, rfl, by rw [replies_registrations hp]; rfl, _, none, registered p, first, rfl, rfl, rfl, rfl,
    verify_registered, rfl⟩

theorem lookedUp_registrations {p : Promise}
    (hp : ∀ promises, (awaiting promises).checkPromise (registered p) "alice" first = .ok p) :
    ExchangeAt Commitment.verify .empty (registrations p promised) 3 (LookedUp "alice" 1 (some [1])) :=
  ⟨_, _, rfl, by rw [replies_registrations hp]; rfl, _, none, found, second, rfl, rfl, rfl, rfl, rfl⟩

/-- Between the two calls stands a registration. -/
theorem not_lookedUp_registrations {p : Promise} {n : Nat} {e : Epoch} {value : Option Bytes} (h₁ : 1 < n)
    (h₃ : n < 3) : ¬ ExchangeAt Commitment.verify .empty (registrations p promised) n (LookedUp "alice" e value) := by
  obtain rfl : n = 2 := by omega
  rintro ⟨_, _, hcall, -, _, _, _, _, rfl, -⟩
  cases hcall

/-- It takes the promise of what is published. -/
theorem eq_promised_of_registrations {p q : Promise} {n : Nat} (h₁ : 1 < n) (h₃ : n < 3)
    (h : ExchangeAt Commitment.verify .empty (registrations p promised) n (Promised Commitment.verify "alice" q)) :
    q = promised := by
  obtain rfl : n = 2 := by omega
  obtain ⟨_, _, hcall, -, _, _, _, _, rfl, -, ha, -, -, hq⟩ := h
  cases hcall
  cases ha
  exact (Option.some.inj hq).symm

end Sample

/-- Of a session in any state that takes a promise for a name, the first lookup of the name
that the promise is due for finds what was promised, whatever is asked in between. The one
thing that can come between is a promise of something else for the name. -/
theorem promised_value_found {i j : Nat} (hij : i < j) (htaken : ExchangeAt verify c calls i (Promised verify name p))
    (hfound : ExchangeAt verify c calls j (LookedUp name e value)) (hdue : p.issuedAt < e)
    (hfirst : ∀ n e' value', i < n → n < j → ExchangeAt verify c calls n (LookedUp name e' value') →
      ¬ p.issuedAt < e')
    (hpromises : ∀ n q, i < n → n < j → ExchangeAt verify c calls n (Promised verify name q) →
      q.value = p.value ∧ q.issuedAt = p.issuedAt) :
    value = some p.value := by
  obtain ⟨call, hcall, hfound⟩ := exchangeAt_iff.mp hfound
  have hj : j ≤ calls.length := Nat.le_of_lt (List.getElem?_eq_some_iff.mp hcall).1
  exact hfound.value_eq (awaits_of_promised htaken hfirst hpromises hj hij (Nat.le_refl j)) hdue

theorem promised_value_found_sample :
    ExchangeAt Commitment.verify .empty (Sample.registrations Sample.promised Sample.promised) 1
      (Promised Commitment.verify "alice" Sample.promised) ∧
    ExchangeAt Commitment.verify .empty (Sample.registrations Sample.promised Sample.promised) 3
      (LookedUp "alice" 1 (some [1])) ∧
    (some [1] : Option Bytes) = some Sample.promised.value :=
  have htaken := Sample.promised_registrations Sample.checkPromise_promised
  have hfound := Sample.lookedUp_registrations Sample.checkPromise_promised
  ⟨htaken, hfound, promised_value_found (by decide) htaken hfound (by decide)
    (fun _ _ _ h₁ h₃ h => absurd h (Sample.not_lookedUp_registrations h₁ h₃))
    fun _ _ h₁ h₃ h => Sample.eq_promised_of_registrations h₁ h₃ h ▸ ⟨rfl, rfl⟩⟩

/-- A promise that is taken for the name displaces the one before. The first lookup that the
one before is due for succeeds, and does not find what it promised. -/
theorem promise_displaced_sample :
    ExchangeAt Commitment.verify .empty (Sample.registrations Sample.broken Sample.promised) 1
      (Promised Commitment.verify "alice" Sample.broken) ∧
    ExchangeAt Commitment.verify .empty (Sample.registrations Sample.broken Sample.promised) 3
      (LookedUp "alice" 1 (some [1])) ∧
    Sample.broken.issuedAt < 1 ∧
    (∀ n e value, 1 < n → n < 3 → ExchangeAt Commitment.verify .empty
      (Sample.registrations Sample.broken Sample.promised) n (LookedUp "alice" e value) →
      ¬ Sample.broken.issuedAt < e) ∧
    (some [1] : Option Bytes) ≠ some Sample.broken.value :=
  ⟨Sample.promised_registrations Sample.checkPromise_broken, Sample.lookedUp_registrations Sample.checkPromise_broken,
    by decide, fun _ _ _ h₁ h₃ h => absurd h (Sample.not_lookedUp_registrations h₁ h₃), by decide⟩

end KeyTransparency.Session
