import KeyTransparency.Client.Session
import KeyTransparency.Proofs.Chain.Fork
import KeyTransparency.Proofs.Run
import KeyTransparency.Simulation.Commitment

/-!
# Runs of a client session

A session is started, is given answers of a directory, and is shown snapshots of
auditors, in any order (`Session.Call`, `Session.step`, `Session.run`). What a call
does to the session is said once (`step_cases`): it leaves the session as it is,
starts it, faults it, or moves it forward along its chain.

A session tracks a chain (`Session.Tracks`) if it holds the snapshots of the chain
and nothing else, and the tip of the session is that of the chain.

* `observeAll_shows`: what is held after a run of snapshots was taken;
* `Tracks.step`, `Tracks.run`: a session that tracks a chain tracks that chain, or a
  longer one, after every call;
* `run_empty_cases`: a session is as new until it is started, and then tracks a chain.
-/

namespace KeyTransparency.Session

/-- What a session can be asked. -/
inductive Call where
  | start (initial : Snapshot) (key : PublicKey)
  | receive (kind : RequestKind) (r : Response) (name : String) (expected : Option Bytes)
  | crossCheck (r : Response)

/-- What a session replies. -/
inductive Reply where
  | started (result : Except SessionError Unit)
  | value (result : Except SessionError (Option Bytes))
  | verdict (result : Except SessionError Unit)
deriving DecidableEq

/-- The reply to a call, and the session after it. -/
def step (verify : ProofVerifier) (c : Session) : Call → Reply × Session
  | .start initial key => (.started (c.start initial key).1, (c.start initial key).2)
  | .receive kind r name expected =>
    (.value (c.receive verify kind r name expected).1, (c.receive verify kind r name expected).2)
  | .crossCheck r => (.verdict (c.crossCheck r), c)

/-- The replies to calls made one after the other, and the session after them. -/
def run (verify : ProofVerifier) (c : Session) (calls : List Call) : List Reply × Session :=
  runCalls (step verify) c calls

/-- The session after some run of calls on a new one. -/
def Reachable (verify : ProofVerifier) (c : Session) : Prop :=
  ∃ calls, (run verify .empty calls).2 = c

/-- The session after it took `fresh` at the end of its chain. -/
def advanced (c : Session) (tip : ChainTip) (fresh : List Snapshot) : Session :=
  { c with tip := some (tip.moveTo fresh), observed := observeAll c.observed fresh }

variable {verify : ProofVerifier} {c d : Session} {tip : ChainTip} {l fresh : List Snapshot}

/-! ## What a call does -/

theorem start_cases (c : Session) (initial : Snapshot) (key : PublicKey) :
    (∃ e, c.start initial key = (.error e, c)) ∨
    (c.tip = none ∧ initial.Starts key ∧ c.start initial key =
      (.ok (), { c with tip := some ⟨key, initial⟩,
                        observed := c.observed.insert initial.epoch initial })) := by
  simp only [start]
  split
  · exact .inl ⟨_, rfl⟩
  · rename_i ht
    cases hp : ChainTip.pin key initial with
    | error e => exact .inl ⟨_, rfl⟩
    | ok tip =>
      obtain ⟨hs, rfl⟩ := ChainTip.pin_eq_ok_iff.mp hp
      exact .inr ⟨by simpa using ht, hs, rfl⟩

theorem start_empty_eq {initial : Snapshot} {key : PublicKey} (hs : initial.Starts key) :
    Session.empty.start initial key =
      (.ok (), { Session.empty with
        tip := some ⟨key, initial⟩
        observed := (∅ : Std.ExtTreeMap Epoch Snapshot).insert initial.epoch initial }) := by
  have hp : ChainTip.pin key initial = .ok ⟨key, initial⟩ := ChainTip.pin_eq_ok_iff.mpr ⟨hs, rfl⟩
  simp [start, empty, hp]

theorem advanced_nil (ht : c.tip = some tip) : c.advanced tip [] = c := by
  cases c
  cases ht
  rfl

/-- Snapshots that do not belong to the chain fault the session. Of the others it takes
those that it has not seen. -/
theorem takeSnapshots_cases (ht : c.tip = some tip) (snapshots : List Snapshot) :
    (∃ e, c.takeSnapshots snapshots = (.error e, { c with faulted := true })) ∨
    ∃ fresh, unseen c.observed snapshots = .ok fresh ∧
      (tip.latest :: fresh).IsChain (Snapshot.Follows tip.key) ∧
      c.takeSnapshots snapshots = (.ok (), c.advanced tip fresh) := by
  rw [takeSnapshots]
  cases hu : unseen c.observed snapshots with
  | error epoch => exact .inl ⟨_, rfl⟩
  | ok fresh =>
    cases fresh with
    | nil => exact .inr ⟨[], rfl, .singleton _, by rw [advanced_nil ht]⟩
    | cons s fresh =>
      simp only [ht]
      rcases tip.append_cases (s :: fresh) with ⟨e, -, ha⟩ | ⟨hr, ha⟩
      · exact .inl ⟨.chain e, by rw [ha]⟩
      · exact .inr ⟨_, rfl, hr, by rw [ha, advanced]⟩

/-- A promise that is due is kept, and done with. Any other stays. -/
theorem dischargePromise_eq_ok_iff {name : String} {e : Epoch} {value : Option Bytes} :
    c.dischargePromise name e value = .ok d ↔
    ((∀ p, c.promises[name]? = some p → ¬ p.issuedAt < e) ∧ d = c) ∨
    ∃ p, c.promises[name]? = some p ∧ p.issuedAt < e ∧ value = some p.value ∧
      d = { c with promises := c.promises.erase name } := by
  rw [dischargePromise]
  cases c.promises[name]? with
  | none => simp [eq_comm]
  | some p =>
    simp only [Option.some.injEq, forall_eq', exists_eq_left', ← Promise.exists_due_le_iff]
    cases p.dueEpoch with
    | none => simp [eq_comm]
    | some due =>
      by_cases hdue : e < due
      · simp [hdue, eq_comm]
      · by_cases hv : value = some p.value
        · simp [hdue, hv, UInt64.not_lt.mp hdue, eq_comm]
        · simp [hdue, hv, UInt64.not_lt.mp hdue]

/-- A value that is not the expected one is refused, whatever was promised. -/
theorem settle_eq {kind : RequestKind} {name : String} {expected value : Option Bytes} {last : Snapshot}
    {promise : Option Promise} : c.settle kind name expected last value promise =
    if expected = none ∨ expected = value then
      (match kind with
        | .keyLookup => c.dischargePromise name last.epoch value
        | .registration => .ok c) >>= fun c =>
          .ok { c with promises := promise.elim c.promises (c.promises.insert name) }
    else .error (.keyMismatch name) := by
  have he : expected.isSome = true ∧ value ≠ expected ↔ ¬ (expected = none ∨ expected = value) := by
    cases expected <;> simp [eq_comm]
  rw [settle]
  by_cases h : expected = none ∨ expected = value
  · rw [if_neg (mt he.mp (not_not.mpr h)), if_pos h]
    cases kind <;> cases promise <;> rfl
  · rw [if_pos (he.mpr h), if_neg h]
    rfl

/-- Settling what an answer says changes promises, and nothing else. -/
theorem settle_eq_ok {kind : RequestKind} {name : String} {expected value : Option Bytes}
    {last : Snapshot} {promise : Option Promise}
    (h : c.settle kind name expected last value promise = .ok d) :
    ∃ promises, d = { c with promises := promises } := by
  rw [settle_eq] at h
  split at h <;> [skip; cases h]
  obtain ⟨c', hc', h⟩ := bind_eq_ok_iff.mp h
  cases h
  cases kind with
  | keyLookup =>
    rcases dischargePromise_eq_ok_iff.mp hc' with ⟨-, rfl⟩ | ⟨-, -, -, -, rfl⟩ <;> exact ⟨_, rfl⟩
  | registration =>
    cases hc'
    exact ⟨_, rfl⟩

/-- An answer leaves the session as it is, faults it, or moves it along its chain and
changes its promises. It may move the session and be refused all the same. -/
theorem receive_cases (verify : ProofVerifier) (c : Session) (kind : RequestKind) (r : Response)
    (name : String) (expected : Option Bytes) :
    (c.receive verify kind r name expected).2 = c ∨
    ∃ tip, c.tip = some tip ∧ c.faulted = false ∧
      ((c.receive verify kind r name expected).2 = { c with faulted := true } ∨
        ∃ fresh promises, (tip.latest :: fresh).IsChain (Snapshot.Follows tip.key) ∧
          (c.receive verify kind r name expected).2 =
            { c.advanced tip fresh with promises := promises }) := by
  rw [receive]
  split
  · exact .inl rfl
  · rename_i hf
    split
    · exact .inl rfl
    · rename_i hn
      obtain ⟨tip, ht⟩ := Option.ne_none_iff_exists'.mp (mt Option.isNone_iff_eq_none.mpr hn)
      split
      · exact .inl rfl
      · rename_i answer _
        refine .inr ⟨tip, ht, by simpa using hf, ?_⟩
        rcases takeSnapshots_cases ht answer.snapshots with ⟨e, he⟩ | ⟨fresh, -, hfresh, he⟩
        · exact .inl (by rw [he])
        · refine .inr ⟨fresh, ?_⟩
          rw [he]
          dsimp only
          split
          · exact ⟨_, hfresh, rfl⟩
          · split
            · exact ⟨_, hfresh, rfl⟩
            · split
              · exact ⟨_, hfresh, rfl⟩
              · rename_i hs
                obtain ⟨promises, rfl⟩ := settle_eq_ok hs
                exact ⟨promises, hfresh, rfl⟩

/-- What a call can do to a session. -/
theorem step_cases (verify : ProofVerifier) (c : Session) (call : Call) :
    ((step verify c call).1 ≠ .started (.ok ()) ∧ (step verify c call).2 = c) ∨
    (∃ initial key, c.tip = none ∧ initial.Starts key ∧
      step verify c call = (.started (.ok ()),
        { c with tip := some ⟨key, initial⟩,
                 observed := c.observed.insert initial.epoch initial })) ∨
    ∃ tip, c.tip = some tip ∧ c.faulted = false ∧
      ((step verify c call).2 = { c with faulted := true } ∨
        ∃ fresh promises, (tip.latest :: fresh).IsChain (Snapshot.Follows tip.key) ∧
          (step verify c call).2 = { c.advanced tip fresh with promises := promises }) := by
  cases call with
  | start initial key =>
    rcases c.start_cases initial key with ⟨e, he⟩ | ⟨ht, hs, he⟩
    · exact .inl (by simp [step, he])
    · exact .inr (.inl ⟨initial, key, ht, hs, by rw [step, he]⟩)
  | receive kind r name expected =>
    rcases receive_cases verify c kind r name expected with he | h
    · exact .inl ⟨by simp [step], he⟩
    · exact .inr (.inr h)
  | crossCheck r => exact .inl ⟨by simp [step], rfl⟩

/-! ## Sessions that track a chain -/

/-- The session holds the snapshots of the chain `l`, and no others; `tip` is its tip. -/
structure Tracks (c : Session) (tip : ChainTip) (l : List Snapshot) : Prop where
  chain : tip.IsTipOf l
  shows : View.Shows c.observedAt? l
  tip : c.tip = some tip

theorem observeAll_eq_put (observed : Std.ExtTreeMap Epoch Snapshot) (run : List Snapshot) :
    ((observeAll observed run)[·]?) = View.put (observed[·]?) run := by
  induction run generalizing observed with
  | nil => rfl
  | cons s run ih =>
    refine (ih (observed.insert s.epoch s)).trans (congrArg (View.put · run) ?_)
    funext e
    show (observed.insert s.epoch s)[e]? = Function.update (observed[·]?) s.epoch (some s) e
    rw [getElem?_insert, Function.update_apply]
    simp only [eq_comm]

theorem observeAll_shows {key : PublicKey} {observed : Std.ExtTreeMap Epoch Snapshot}
    (hv : View.Shows (observed[·]?) l) (hl : ValidChain key (l ++ fresh)) :
    View.Shows ((observeAll observed fresh)[·]?) (l ++ fresh) := by
  rw [observeAll_eq_put]
  exact hv.put hl

namespace Tracks

theorem ofStarts {key : PublicKey} {initial : Snapshot} (hs : initial.Starts key) :
    Tracks { Session.empty with
      tip := some ⟨key, initial⟩, observed := (∅ : Std.ExtTreeMap Epoch Snapshot).insert initial.epoch initial }
      ⟨key, initial⟩ [initial] where
  chain := .ofStarts hs
  shows := by
    show View.Shows ((observeAll ∅ [initial])[·]?) ([] ++ [initial])
    exact observeAll_shows (fun e => by simp) (ValidChain.singleton hs)
  tip := rfl

theorem advanced (h : c.Tracks tip l) (hr : (tip.latest :: fresh).IsChain (Snapshot.Follows tip.key))
    (promises : Std.ExtTreeMap String Promise) :
    Tracks { c.advanced tip fresh with promises := promises } (tip.moveTo fresh) (l ++ fresh) where
  chain := h.chain.moveTo hr
  shows := observeAll_shows h.shows (h.chain.moveTo hr).chain
  tip := rfl

/-- No call takes anything from what is held, or heals a fault. -/
theorem step (h : c.Tracks tip l) (verify : ProofVerifier) (call : Call) :
    ∃ tip' fresh, tip'.key = tip.key ∧ (step verify c call).2.Tracks tip' (l ++ fresh) ∧
      (c.faulted = true → (step verify c call).2.faulted = true) := by
  rcases step_cases verify c call with ⟨-, he⟩ | ⟨_, _, ht, -, -⟩ | ⟨tip', ht, hf, he | ⟨fresh, ps, hr, he⟩⟩
  · exact ⟨tip, [], rfl, by simpa [he] using h, fun hf => by rw [he, hf]⟩
  · rw [h.tip] at ht
    cases ht
  · refine ⟨tip, [], rfl, ?_, fun _ => by rw [he]⟩
    rw [he, List.append_nil]
    exact ⟨h.chain, h.shows, h.tip⟩
  · rw [h.tip, Option.some.injEq] at ht
    subst ht
    refine ⟨tip.moveTo fresh, fresh, rfl, ?_, fun hf' => ?_⟩
    · rw [he]
      exact h.advanced hr ps
    · rw [hf] at hf'
      cases hf'

theorem run (h : c.Tracks tip l) (verify : ProofVerifier) (calls : List Call) :
    ∃ tip' fresh, tip'.key = tip.key ∧ (run verify c calls).2.Tracks tip' (l ++ fresh) ∧
      (c.faulted = true → (run verify c calls).2.faulted = true) := by
  induction calls generalizing c tip l with
  | nil => exact ⟨tip, [], rfl, by simpa [Session.run, runCalls] using h, id⟩
  | cons call calls ih =>
    obtain ⟨tip₁, fresh₁, hk₁, h₁, hf₁⟩ := h.step verify call
    obtain ⟨tip₂, fresh₂, hk₂, h₂, hf₂⟩ := ih h₁
    exact ⟨tip₂, fresh₁ ++ fresh₂, hk₂.trans hk₁, List.append_assoc l fresh₁ fresh₂ ▸ h₂, hf₂ ∘ hf₁⟩

end Tracks

/-- A session is as new as long as no start succeeds, and tracks a chain from then on. -/
theorem run_empty_cases (verify : ProofVerifier) (calls : List Call) :
    (Reply.started (.ok ()) ∉ (run verify .empty calls).1 ∧ (run verify .empty calls).2 = .empty) ∨
    (Reply.started (.ok ()) ∈ (run verify .empty calls).1 ∧
      ∃ tip l, (run verify .empty calls).2.Tracks tip l) := by
  induction calls with
  | nil => exact .inl ⟨List.not_mem_nil, rfl⟩
  | cons call calls ih =>
    simp only [run, runCalls, List.mem_cons] at ih ⊢
    rcases step_cases verify .empty call with ⟨hne, he⟩ | ⟨initial, key, -, hs, he⟩ | ⟨_, ht, -, -⟩
    · rw [he]
      rcases ih with ⟨hn, hc⟩ | ⟨hm, hc⟩
      · exact .inl ⟨not_or.mpr ⟨hne.symm, hn⟩, hc⟩
      · exact .inr ⟨.inr hm, hc⟩
    · rw [he]
      obtain ⟨tip, fresh, -, h, -⟩ := (Tracks.ofStarts hs).run verify calls
      exact .inr ⟨.inl rfl, tip, [initial] ++ fresh, h⟩
    · cases ht

theorem Reachable.run (hc : Reachable verify c) (calls : List Call) :
    Reachable verify (run verify c calls).2 := by
  obtain ⟨before, rfl⟩ := hc
  exact ⟨before ++ calls, by rw [Session.run, runCalls_append]; rfl⟩

theorem Reachable.cases (hc : Reachable verify c) : c = .empty ∨ ∃ tip l, c.Tracks tip l := by
  obtain ⟨calls, rfl⟩ := hc
  exact (run_empty_cases verify calls).imp And.right And.right

/-! ## What is held of a directory -/

/-- The snapshots held are those of a chain under `key` that ends in `latest`. -/
structure HoldsChain (c : Session) (key : PublicKey) (latest : Snapshot) : Prop where
  pinned : c.key? = some key
  point : key.isPoint = true
  isLatest : c.latest? = some latest
  observedLatest : c.observedAt? latest.epoch = some latest
  held : ∀ e, (∃ s, c.observedAt? e = some s) ↔ e ≤ latest.epoch
  epochs : ∀ e s, c.observedAt? e = some s → s.epoch = e
  first : ∀ s, c.observedAt? 0 = some s → s.previous = Digest.zero
  links : ∀ (e f : Epoch) s t, f.toNat = e.toNat + 1 → c.observedAt? e = some s →
    c.observedAt? f = some t → t.previous = s.digest
  signed : ∀ e s, c.observedAt? e = some s → s.hasValidSignature key = true

/-- What `c` knows of its directory, `d` knows too. -/
structure Keeps (c d : Session) : Prop where
  key : d.key? = c.key?
  directoryId : d.directoryId? = c.directoryId?
  observed : ∀ e s, c.observedAt? e = some s → d.observedAt? e = some s
  latest : ∀ s, c.latest? = some s → ∃ t, d.latest? = some t ∧ s.epoch ≤ t.epoch
  faulted : c.state = .faulted → d.state = .faulted

theorem Tracks.holdsChain (h : c.Tracks tip l) : c.HoldsChain tip.key tip.latest where
  pinned := by simp [key?, h.tip]
  point := h.chain.chain.point
  isLatest := by simp [latest?, h.tip]
  observedLatest := by
    have hl := h.chain.latest
    rw [List.getLast?_eq_getElem?, h.chain.length_eq] at hl
    exact (h.shows _).trans hl
  held e := by
    rw [h.shows.exists_iff, h.chain.length_eq, UInt64.le_iff_toNat_le, ChainTip.epoch]
    omega
  epochs _ _ hs := h.shows.epoch_eq h.chain.chain hs
  first _ hs := (h.shows.starts h.chain.chain hs).previous
  links _ _ _ _ hf hs ht := (h.shows.follows h.chain.chain hs ht hf).previous
  signed _ _ hs := h.shows.signed h.chain.chain hs

theorem state_eq_faulted_iff : c.state = .faulted ↔ c.faulted = true := by
  rw [state]
  cases c.faulted with
  | true => simp
  | false => cases c.tip <;> simp

theorem Tracks.observedAt?_append {tip' : ChainTip} {e : Epoch} {s : Snapshot} (h : c.Tracks tip l)
    (h' : d.Tracks tip' (l ++ fresh)) (hs : c.observedAt? e = some s) : d.observedAt? e = some s := by
  rw [h.shows] at hs
  rw [h'.shows, List.getElem?_append_left (List.getElem?_eq_some_iff.mp hs).1, hs]

theorem Tracks.keeps {tip' : ChainTip} (h : c.Tracks tip l) (h' : d.Tracks tip' (l ++ fresh))
    (hk : tip'.key = tip.key) (hf : c.faulted = true → d.faulted = true) : c.Keeps d where
  key := by simp [key?, h.tip, h'.tip, hk]
  directoryId := by
    obtain ⟨s, h0, -⟩ := h.chain.chain.starts
    have hc : c.observedAt? 0 = some s := (h.shows 0).trans h0
    have hd := h.observedAt?_append h' hc
    rw [observedAt?] at hc hd
    rw [directoryId?, directoryId?, hc, hd]
  observed _ _ hs := h.observedAt?_append h' hs
  latest s hs := by
    rw [latest?, h.tip, Option.map_some, Option.some.injEq] at hs
    subst hs
    refine ⟨tip'.latest, by simp [latest?, h'.tip], ?_⟩
    have hl := h.chain.length_eq
    have hl' := h'.chain.length_eq
    rw [ChainTip.epoch] at hl hl'
    rw [List.length_append] at hl'
    rw [UInt64.le_iff_toNat_le]
    omega
  faulted hc := state_eq_faulted_iff.mpr (hf (state_eq_faulted_iff.mp hc))

namespace Sample

open KeyTransparency.Sample (key first left right)

/-- The session is started, and then given an answer whose snapshots belong to the chain
and whose proof belongs to no root. -/
def calls : List Call :=
  [.start first key, .receive .keyLookup (.ofProof ⟨[first, left], [], none⟩) "alice" none]

def replies : List Reply := [.started (.ok ()), .value (.error (.proof Commitment.rootMismatch))]

/-- The refused answer has moved the session. -/
def session : Session :=
  ⟨some ⟨key, left⟩, false, ((∅ : Std.ExtTreeMap Epoch Snapshot).insert 0 first).insert 1 left, ∅⟩

/-- A second snapshot of an epoch. -/
def fork : List Call := [.receive .keyLookup (.ofProof ⟨[right], [], none⟩) "alice" none]

theorem run_calls : run Commitment.verify .empty calls = (replies, session) := by decide +kernel

theorem session_reachable : Reachable Commitment.verify session := ⟨calls, by rw [run_calls]⟩

theorem observedAt?_session :
    session.observedAt? 0 = some first ∧ session.observedAt? 1 = some left := by
  simp only [observedAt?, session, getElem?_insert]
  exact ⟨by rw [if_neg (by decide), if_pos trivial], by rw [if_pos trivial]⟩

end Sample

/-- Whatever a session was asked: it is as new until a start succeeds. From then on it
holds a whole valid chain under the key pinned, up to its latest snapshot, and whatever
it is asked later it keeps what it holds. -/
theorem holdsChain_of_run {calls : List Call} {replies : List Reply}
    (h : run verify .empty calls = (replies, c)) (more : List Call) :
    (Reply.started (.ok ()) ∉ replies →
      c.observed = ∅ ∧ c.promises = ∅ ∧ c.state = .uninitialized) ∧
    (Reply.started (.ok ()) ∈ replies →
      (∃ key latest, c.HoldsChain key latest) ∧ c.Keeps (run verify c more).2) := by
  have hc := run_empty_cases verify calls
  rw [h] at hc
  rcases hc with ⟨hn, rfl⟩ | ⟨hm, tip, l, ht⟩
  · exact ⟨fun _ => ⟨rfl, rfl, rfl⟩, fun hm => absurd hm hn⟩
  · refine ⟨fun hn => absurd hm hn, fun _ => ⟨⟨_, _, ht.holdsChain⟩, ?_⟩⟩
    obtain ⟨tip', fresh, hk, ht', hf⟩ := ht.run verify more
    exact ht.keeps ht' hk hf

theorem holdsChain_sample :
    run Commitment.verify .empty Sample.calls = (Sample.replies, Sample.session) ∧
    Reply.started (.ok ()) ∈ Sample.replies ∧
    (∃ key latest, Sample.session.HoldsChain key latest) ∧
    Sample.session.Keeps (run Commitment.verify Sample.session Sample.fork).2 :=
  have hm : Reply.started (.ok ()) ∈ Sample.replies := List.mem_cons_self
  ⟨Sample.run_calls, hm, (holdsChain_of_run Sample.run_calls Sample.fork).2 hm⟩

end KeyTransparency.Session
