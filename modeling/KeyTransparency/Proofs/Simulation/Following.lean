import KeyTransparency.Proofs.Client.Receive
import KeyTransparency.Proofs.Simulation.Commitment
import KeyTransparency.Proofs.Simulation.Ledger

/-!
# A session that follows a directory

A session follows a ledger (`Ledger.Followed`) if it tracks a beginning of what the
directory published, and holds promises that the ledger keeps. An answer of the directory
may reach it late, more than once, and out of order. As long as the answer does not start
beyond the next snapshot (`Session.Reaches`), the session takes it for what it is
(`Ledger.Outcome`), and follows the ledger after it (`Followed.receive`). A session that
follows a ledger follows it when it has grown (`Followed.mono`).
-/

namespace KeyTransparency

namespace Directory.Answer

/-- The promise that the answer carries, if any. -/
def promise? (answer : Answer) : Option Promise :=
  match answer.response.body with
  | some (.proof content) => content.promise
  | _ => none

/-- The answer is handled as what it is: one to a registration as that, for the name that
was to be registered, and with its value expected or none; one to a lookup as that, for
whatever name. -/
inductive HandledAs : Answer → RequestKind → String → Option Bytes → Prop
  | registration (request : RegistrationRequest) (response : Response) {expected : Option Bytes}
      (h : expected = none ∨ expected = some request.value) :
      HandledAs (.registration request response) .registration request.name expected
  | lookup (response : Response) (name : String) : HandledAs (.lookup response) .keyLookup name none

end Directory.Answer

/-- The first snapshot of the answer, if there is one, is not beyond the next one of the
session. -/
def Session.Reaches (c : Session) (r : Response) : Prop :=
  ∀ body first latest, r.body = some body → body.snapshots.head? = some first → c.latest? = some latest →
    first.epoch.toNat ≤ latest.epoch.toNat + 1

namespace Ledger

/-- What becomes of an answer about a name. A registration that was refused, and a lookup
without snapshots, are no use. Every other registration gives the value that was to be
registered, and every other lookup that of the mapping of its last epoch. -/
inductive Outcome (l : Ledger) (name : String) : Directory.Answer → Except SessionError (Option Bytes) → Prop
  | refused (request : RegistrationRequest) :
      Outcome l name (.registration request (.failure .alreadyExists))
        (.error (.response (.failure .alreadyExists)))
  | registered (request : RegistrationRequest) (content : MappingProof) :
      Outcome l name (.registration request (.ofProof content)) (.ok (some request.value))
  | empty {content : MappingProof} (h : content.snapshots = []) :
      Outcome l name (.lookup (.ofProof content)) (.error (.response (.malformed .noSnapshots)))
  | found {content : MappingProof} {last : Snapshot} {m : Mapping} (h : content.latest? = some last)
      (hm : l.published[last.epoch.toNat]? = some m) :
      Outcome l name (.lookup (.ofProof content)) (.ok m[name]?)

/-- The session tracks a beginning of what the directory published, and the ledger keeps
each promise that it holds. -/
structure Followed (l : Ledger) (c : Session) : Prop where
  unfaulted : c.faulted = false
  tracks : ∃ tip n, tip.key = l.directory.publicKey ∧ n < l.directory.publications.length ∧
    c.Tracks tip (l.directory.snapshots.take (n + 1))
  promises : ∀ (name : String) (promise : Promise), c.promises[name]? = some promise →
    l.Promised name promise.value promise.issuedAt.toNat

/-- What was published can be written, and is a valid chain. -/
structure Readable (l : Ledger) : Prop where
  epochs : l.directory.publications.length < UInt64.size
  writable : ∀ m ∈ l.published, m.Writable
  chain : ValidChain l.directory.publicKey l.directory.snapshots

variable {l l' : Ledger} {c : Session} {i j : Nat} {p : Publication} {m : Mapping} {promise : Option Promise}
  {name : String}

/-! ## What an answer shows -/

theorem Entry.snapshot (h : l.Entry i p m) : l.directory.snapshots[i]? = some p.snapshot := by
  rw [Directory.snapshots, List.getElem?_map, h.publication]
  rfl

theorem Entry.epoch_toNat (hr : l.Readable) (h : l.Entry i p m) : p.snapshot.epoch.toNat = i :=
  hr.chain.epoch_eq h.snapshot

/-- The proof of a publication proves its mapping. -/
theorem Entry.verify (hl : l.Sound) (hr : l.Readable) (h : l.Entry i p m) (name : String) :
    Commitment.verify p.proof p.snapshot.root name = .ok m[name]? := by
  have hc := hl.commits i p m h
  rw [hc.proof, hc.root]
  have hsalt : ([] : Bytes).length < UInt64.size := by decide
  exact Commitment.verify_proof hsalt (hr.writable m (List.mem_of_getElem? h.mapping)) name

theorem getElem?_piece {k : Nat} (hk : i + k ≤ j) : (l.piece i j)[k]? = l.directory.snapshots[i + k]? := by
  rw [piece, List.getElem?_take_of_lt (by omega), List.getElem?_drop]

theorem length_piece (hj : j < l.directory.publications.length) : (l.piece i j).length = j + 1 - i := by
  rw [piece, List.length_take, List.length_drop, Directory.length_snapshots]
  omega

theorem getLast?_piece (h : l.Entry j p m) (hij : i ≤ j) : (l.piece i j).getLast? = some p.snapshot := by
  rw [List.getLast?_eq_getElem?, length_piece h.lt_length, getElem?_piece (by omega),
    show i + (j + 1 - i - 1) = j by omega, h.snapshot]

theorem asProof_piece (hr : l.Readable) (h : l.Entry j p m) (hij : i ≤ j) :
    (Response.ofProof ⟨l.piece i j, p.proof, promise⟩).asProof = .ok ⟨l.piece i j, p.proof, promise⟩ := by
  refine Response.asProof_eq_ok_iff.mpr ⟨rfl, rfl, fun hnil => ?_, ?_⟩
  · have hlast := getLast?_piece h hij
    rw [show l.piece i j = [] from hnil] at hlast
    cases hlast
  · exact consecutive_iff.mpr (((hr.chain.linked.drop i).take _).imp fun _ _ hst => hst.epoch)

/-- A session that reaches a piece of the snapshots takes it, and goes on following. -/
theorem Followed.takeSnapshots (hc : l.Followed c) (hr : l.Readable) (h : l.Entry j p m) (hij : i ≤ j)
    (hreach : c.Reaches (.ofProof ⟨l.piece i j, p.proof, promise⟩)) :
    ∃ taken, c.takeSnapshots (l.piece i j) = (.ok (), taken) ∧ l.Followed taken := by
  obtain ⟨tip, n, hk, hn, ht⟩ := hc.tracks
  have hj := h.lt_length
  -- The piece starts at a snapshot of epoch `i`, and the latest one of the session has epoch `n`.
  have hi : i ≤ n + 1 := by
    have hlen : i < l.directory.snapshots.length := by
      rw [Directory.length_snapshots]
      omega
    have hhead : (l.piece i j).head? = some l.directory.snapshots[i] := by
      rw [List.head?_eq_getElem?, getElem?_piece hij, Nat.add_zero, List.getElem?_eq_getElem hlen]
    have hepoch := hreach _ _ tip.latest rfl hhead (by rw [Session.latest?, ht.tip]; rfl)
    have hlatest := ht.chain.length_eq
    rw [List.length_take, Directory.length_snapshots, ChainTip.epoch] at hlatest
    rw [hr.chain.epoch_eq (List.getElem?_eq_getElem hlen)] at hepoch
    omega
  obtain ⟨fresh, he, ht'⟩ := ht.takeSnapshots_piece hr.chain hk hi
  exact ⟨_, he, hc.unfaulted, ⟨tip.moveTo fresh, max n j, hk, by omega, ht'⟩, hc.promises⟩

/-! ## What becomes of it -/

theorem Followed.exists_tip (hc : l.Followed c) : ∃ tip, c.tip = some tip ∧ tip.key = l.directory.publicKey := by
  obtain ⟨tip, n, hk, -, ht⟩ := hc.tracks
  exact ⟨tip, ht.tip, hk⟩

/-- A session that follows a ledger follows it with other promises that are kept. -/
theorem Followed.withPromises {promises : Std.ExtTreeMap String Promise} (hc : l.Followed c)
    (hp : ∀ (name : String) (promise : Promise), promises[name]? = some promise →
      l.Promised name promise.value promise.issuedAt.toNat) : l.Followed { c with promises := promises } := by
  obtain ⟨tip, n, hk, hn, ht⟩ := hc.tracks
  exact ⟨hc.unfaulted, ⟨tip, n, hk, hn, ht.chain, ht.shows, ht.tip⟩, hp⟩

theorem Followed.mono (hg : l.Grows l') (hc : l.Followed c) : l'.Followed c := by
  obtain ⟨tip, n, hk, hn, ht⟩ := hc.tracks
  have hkey : l'.directory.publicKey = l.directory.publicKey := congrArg SigningKey.publicKey hg.key
  have hbeginning : l'.directory.snapshots.take (n + 1) = l.directory.snapshots.take (n + 1) :=
    hg.piece_eq (i := 0) hn
  refine ⟨hc.unfaulted, ⟨tip, n, hk.trans hkey.symm, Nat.lt_of_lt_of_le hn hg.publications.length_le, ?_⟩,
    fun name promise hp => hg.promised _ _ _ (hc.promises name promise hp)⟩
  rw [hbeginning]
  exact ht

/-- What is looked up is what the ledger has, and so does not break a promise that the
ledger keeps. -/
theorem Followed.receive_lookup (hc : l.Followed c) (hl : l.Sound) (hr : l.Readable) (h : l.Entry j p m)
    (hij : i ≤ j) (name : String)
    (hreach : c.Reaches (.ofProof ⟨l.piece i j, p.proof, none⟩)) :
    ∃ d, c.receive Commitment.verify .keyLookup (.ofProof ⟨l.piece i j, p.proof, none⟩) name none =
      (.ok m[name]?, d) ∧ l.Followed d := by
  obtain ⟨tip, htip, -⟩ := hc.exists_tip
  obtain ⟨taken, ht, htaken⟩ := hc.takeSnapshots hr h hij hreach
  have hkept (promise : Promise) (hp : taken.promises[name]? = some promise)
      (hdue : promise.issuedAt < p.snapshot.epoch) : m[name]? = some promise.value := by
    rw [UInt64.lt_iff_toNat_lt, h.epoch_toNat hr] at hdue
    exact (htaken.promises name promise hp).kept j m hdue h.mapping
  obtain ⟨promises, hsettle, hsub⟩ := Session.settle_keyLookup_eq_ok hkept
  refine ⟨_, Session.receive_eq_ok_iff.mpr ⟨_, taken, p.snapshot, none, hc.unfaulted, by rw [htip]; rfl,
    asProof_piece hr h hij, ht, getLast?_piece h hij,
    Session.readValue_keyLookup_eq_ok_iff.mpr ⟨h.verify hl hr name, rfl⟩, hsettle⟩, ?_⟩
  exact htaken.withPromises fun name promise hp => htaken.promises name promise (hsub name promise hp)

/-- A registration whose value can be read is answered with it. A promise that the answer
carries is kept in mind. -/
theorem Followed.receive_registration {value : Bytes} {expected : Option Bytes} (hc : l.Followed c)
    (hr : l.Readable) (h : l.Entry i p m)
    (hread : ∀ taken, l.Followed taken →
      taken.readValue Commitment.verify .registration ⟨[p.snapshot], p.proof, promise⟩ name p.snapshot =
        .ok (some value, promise))
    (hp : ∀ kept, promise = some kept → l.Promised name kept.value kept.issuedAt.toNat)
    (he : expected = none ∨ expected = some value)
    (hreach : c.Reaches (.ofProof ⟨[p.snapshot], p.proof, promise⟩)) :
    ∃ d, c.receive Commitment.verify .registration (.ofProof ⟨[p.snapshot], p.proof, promise⟩) name expected =
        (.ok (some value), d) ∧ l.Followed d := by
  obtain ⟨tip, htip, -⟩ := hc.exists_tip
  rw [← h.piece_eq_singleton] at hreach hread ⊢
  obtain ⟨taken, ht, htaken⟩ := hc.takeSnapshots hr h (Nat.le_refl i) hreach
  refine ⟨_, Session.receive_eq_ok_iff.mpr ⟨_, taken, p.snapshot, promise, hc.unfaulted, by rw [htip]; rfl,
    asProof_piece hr h (Nat.le_refl i), ht, getLast?_piece h (Nat.le_refl i), hread taken htaken,
    Session.settle_registration_eq_ok_iff.mpr ⟨he, rfl⟩⟩, ?_⟩
  refine htaken.withPromises fun name' kept hn => ?_
  cases promise with
  | none => exact htaken.promises name' kept hn
  | some promise =>
    rw [Option.elim_some, getElem?_insert] at hn
    split at hn
    · rename_i hname
      exact hname ▸ hp kept hn
    · exact htaken.promises name' kept hn

/-- A registration of what is bound already shows that it is. -/
theorem Followed.receive_present {request : RegistrationRequest} {expected : Option Bytes} (hc : l.Followed c)
    (hl : l.Sound) (hr : l.Readable) (h : l.Entry i p m) (hv : m[request.name]? = some request.value)
    (he : expected = none ∨ expected = some request.value)
    (hreach : c.Reaches (.ofProof ⟨[p.snapshot], p.proof, none⟩)) :
    ∃ d, c.receive Commitment.verify .registration (.ofProof ⟨[p.snapshot], p.proof, none⟩) request.name expected =
        (.ok (some request.value), d) ∧ l.Followed d := by
  refine hc.receive_registration hr h (fun taken _ => ?_) nofun he hreach
  rw [Session.readValue, h.verify hl hr, hv]

/-- A session takes a promise of the directory that it follows. -/
theorem Followed.checkPromise_eq_ok {request : RegistrationRequest} {kept : Promise} {snapshots : List Snapshot}
    (hc : l.Followed c) (hr : l.Readable) (h : l.Entry i p m)
    (hkept : kept = Promise.sign l.directory.key request.name request.value p.snapshot)
    (hsigned : kept.hasValidSignature l.directory.publicKey = true) :
    c.checkPromise ⟨snapshots, p.proof, some kept⟩ request.name p.snapshot = .ok kept := by
  obtain ⟨tip, htip, hk⟩ := hc.exists_tip
  refine Session.checkPromise_eq_ok_iff.mpr ⟨l.directory.publicKey, ?_, rfl, hkept ▸ rfl, ?_, ?_, hsigned⟩
  · rw [Session.key?, htip, Option.map_some, hk]
  · simp [hkept, Promise.isBoundTo, Promise.sign]
  · -- The epoch is not the last one there is, so the promise falls due.
    have hi := h.lt_length
    have hepoch := h.epoch_toNat hr
    have hepochs := hr.epochs
    rw [hkept]
    show p.snapshot.epoch.next?.isSome = true
    rw [Epoch.next?, if_pos (by omega)]
    rfl

/-- A registration of a name that is not bound carries a promise of the directory, which
the ledger keeps. -/
theorem Followed.receive_promised {request : RegistrationRequest} {expected : Option Bytes} {kept : Promise}
    (hc : l.Followed c) (hl : l.Sound) (hr : l.Readable) (h : l.Entry i p m) (hv : m[request.name]? = none)
    (hkept : kept = Promise.sign l.directory.key request.name request.value p.snapshot)
    (hp : l.Promised request.name request.value i)
    (hsigned : kept.hasValidSignature l.directory.publicKey = true)
    (he : expected = none ∨ expected = some request.value)
    (hreach : c.Reaches (.ofProof ⟨[p.snapshot], p.proof, some kept⟩)) :
    ∃ d, c.receive Commitment.verify .registration (.ofProof ⟨[p.snapshot], p.proof, some kept⟩) request.name
        expected = (.ok (some request.value), d) ∧ l.Followed d := by
  have hvalue : kept.value = request.value := hkept ▸ rfl
  refine hc.receive_registration hr h (fun taken htaken => ?_) (fun promise hpromise => ?_) he hreach
  · simp only [Session.readValue, h.verify hl hr, hv, htaken.checkPromise_eq_ok hr h hkept hsigned]
    rw [← hvalue]
    rfl
  · cases hpromise
    have hissued : kept.issuedAt.toNat = i := by
      rw [hkept]
      exact h.epoch_toNat hr
    rw [hvalue, hissued]
    exact hp

/-- A session that follows a ledger takes every genuine answer for what it is, and follows
the ledger after it. -/
theorem Followed.receive {answer : Directory.Answer} {kind : RequestKind} {expected : Option Bytes}
    (hc : l.Followed c) (hl : l.Sound) (hr : l.Readable) (hg : l.Genuine answer)
    (hsigned : ∀ promise, answer.promise? = some promise →
      promise.hasValidSignature l.directory.publicKey = true)
    (hh : answer.HandledAs kind name expected) (hreach : c.Reaches answer.response) :
    l.Outcome name answer (c.receive Commitment.verify kind answer.response name expected).1 ∧
      l.Followed (c.receive Commitment.verify kind answer.response name expected).2 := by
  obtain ⟨tip, htip, -⟩ := hc.exists_tip
  cases hg with
  | refused request =>
    cases hh
    have he : (Response.failure .alreadyExists).asProof = .error (.failure .alreadyExists) := rfl
    simp only [Directory.Answer.response, Session.receive_eq_of_asProof_eq_error hc.unfaulted htip he]
    exact ⟨.refused request, hc⟩
  | present h hv =>
    cases hh with
    | registration _ _ he =>
      obtain ⟨d, hd, hfollowed⟩ := hc.receive_present hl hr h hv he hreach
      simp only [Directory.Answer.response, hd]
      exact ⟨.registered _ _, hfollowed⟩
  | promised h hv hp =>
    cases hh with
    | registration _ _ he =>
      obtain ⟨d, hd, hfollowed⟩ := hc.receive_promised hl hr h hv rfl hp (hsigned _ rfl) he hreach
      simp only [Directory.Answer.response, hd]
      exact ⟨.registered _ _, hfollowed⟩
  | @lookup i j p m h hi =>
    cases hh
    rcases Nat.lt_or_ge j i with hji | hij
    · -- The snapshots start after the one they end in.
      obtain rfl : i = j + 1 := by omega
      have hnil : l.piece (j + 1) j = [] := by
        rw [piece, Nat.sub_self, List.take_zero]
      have he : (Response.ofProof ⟨l.piece (j + 1) j, p.proof, none⟩).asProof =
          .error (.malformed .noSnapshots) := by
        rw [hnil]
        rfl
      simp only [Directory.Answer.response, Session.receive_eq_of_asProof_eq_error hc.unfaulted htip he]
      exact ⟨.empty hnil, hc⟩
    · obtain ⟨d, hd, hfollowed⟩ := hc.receive_lookup hl hr h hij name hreach
      simp only [Directory.Answer.response, hd]
      exact ⟨.found (getLast?_piece h hij) (by rw [h.epoch_toNat hr, h.mapping]), hfollowed⟩

end Ledger

end KeyTransparency
