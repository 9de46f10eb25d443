import KeyTransparency.Proofs.Simulation.Following
import Mathlib.Logic.Function.Basic

/-!
# A directory and its clients

Any number of clients start from the first snapshot of one directory. The directory takes
registrations, publishes, and answers lookups. Every answer is on its way to every client
from then on, and arrives at any time, any number of times, or never (`Network.Step`). So
answers overtake each other, and are still on their way when the directory has gone on.

The directory stays true to its answers, and every client follows it (`Network.Honest`).
Each step keeps that (`Honest.step`), as long as what the directory signed and published
can be checked and written (`Network.Regular`). So no client ever faults, and every answer
is taken for what it is (`never_accused`).
-/

namespace KeyTransparency

/-- A directory with its ledger, the answers that it gave, and its clients. -/
structure Network (Client : Type) where
  ledger : Ledger
  sent : List Directory.Answer
  clients : Client → Session

namespace Network

variable {Client : Type} {net net' : Network Client}

/-- A new directory, and clients that know its first snapshot and its key. -/
def start (Client : Type) (key : SigningKey) : Network Client where
  ledger := Ledger.create key
  sent := []
  clients _ := (Session.empty.start (Directory.create key).latest.snapshot (Directory.create key).publicKey).2

/-- The network once the directory has given the answer. -/
def send (net : Network Client) (answer : Directory.Answer) : Network Client :=
  { net with sent := answer :: net.sent }

/-- The network once the directory has taken the call. -/
def call (net : Network Client) (c : Directory.Call) : Network Client :=
  { net with ledger := net.ledger.step c }

/-- The network once the client has become another session. -/
def become [DecidableEq Client] (net : Network Client) (client : Client) (c : Session) : Network Client :=
  { net with clients := Function.update net.clients client c }

/-- The directory registers a name, publishes, or answers a lookup, or some answer that it
gave arrives at a client. -/
inductive Step [DecidableEq Client] (net : Network Client) : Network Client → Prop
  | register (request : RegistrationRequest) :
      Step net ((net.call (.register request)).send
        (.registration request (net.ledger.directory.register request).1))
  | publish : Step net (net.call .publish)
  | lookupAt {epoch : Epoch} {r : Response} (h : net.ledger.directory.lookupAt? epoch = some r) :
      Step net (net.send (.lookup r))
  | lookupSince {since : Epoch} {r : Response} (h : net.ledger.directory.lookupSince? since = some r) :
      Step net (net.send (.lookup r))
  | deliver (client : Client) {answer : Directory.Answer} {kind : RequestKind} {name : String}
      {expected : Option Bytes} (h : answer ∈ net.sent) (hh : answer.HandledAs kind name expected)
      (hreach : (net.clients client).Reaches answer.response) :
      Step net (net.become client
        ((net.clients client).receive Commitment.verify kind answer.response name expected).2)

/-- What becomes of a new network, step by step. -/
inductive Reachable [DecidableEq Client] : Network Client → Prop
  | start (key : SigningKey) : Reachable (start Client key)
  | step {net net' : Network Client} (h : Reachable net) (hs : Step net net') : Reachable net'

/-- What the directory signed: its snapshots, and the promises in its answers. -/
def signed (net : Network Client) : List Bytes :=
  net.ledger.directory.snapshots.map (fun s => Snapshot.signedBytes s.epoch s.root s.previous) ++
    (net.sent.filterMap (·.promise?)).map
      (fun p => Promise.signedBytes p.name p.value p.snapshotDigest p.issuedAt)

/-- There are epochs and lengths for what the directory published, and what it signed has
a signature that is valid for its key. -/
structure Regular (net : Network Client) : Prop where
  epochs : net.ledger.directory.publications.length < UInt64.size
  writable : ∀ m ∈ net.ledger.published, m.Writable
  signed : ∀ message ∈ net.signed,
    net.ledger.directory.publicKey.verify message (net.ledger.directory.key.sign message) = true

/-- The directory is true to what it answered, and all clients follow it. -/
structure Honest (net : Network Client) : Prop where
  sound : net.ledger.Sound
  genuine : ∀ answer ∈ net.sent, net.ledger.Genuine answer
  followed : ∀ client, net.ledger.Followed (net.clients client)

/-! ## What is regular -/

/-- The promise in a genuine answer is signed with the key of the directory. -/
theorem signature_eq_of_genuine {l : Ledger} {answer : Directory.Answer} {promise : Promise}
    (h : l.Genuine answer) (hp : answer.promise? = some promise) :
    promise.signature = l.directory.key.sign
      (Promise.signedBytes promise.name promise.value promise.snapshotDigest promise.issuedAt) := by
  cases h with
  | refused _ => cases hp
  | present _ _ => cases hp
  | promised _ _ _ =>
    cases hp
    rfl
  | lookup _ _ => cases hp

theorem Regular.readable (h : net.Regular) (hl : net.ledger.Sound) : net.ledger.Readable where
  epochs := h.epochs
  writable := h.writable
  chain := by
    refine hl.reachable.validChain h.epochs fun s hs => ?_
    rw [Snapshot.hasValidSignature, hl.reachable.signature_eq hs]
    exact h.signed _ (List.mem_append_left _ (List.mem_map_of_mem hs))

theorem Regular.promise_signed (h : net.Regular) {answer : Directory.Answer} {promise : Promise}
    (hsent : answer ∈ net.sent) (hg : net.ledger.Genuine answer) (hp : answer.promise? = some promise) :
    promise.hasValidSignature net.ledger.directory.publicKey = true := by
  rw [Promise.hasValidSignature, signature_eq_of_genuine hg hp]
  have hmem : promise ∈ net.sent.filterMap (·.promise?) := List.mem_filterMap.mpr ⟨answer, hsent, hp⟩
  exact h.signed _ (List.mem_append_right _ (List.mem_map_of_mem hmem))

/-! ## What is kept -/

theorem honest_start {key : SigningKey} (h : (start Client key).Regular) : (start Client key).Honest where
  sound := Ledger.sound_create key
  genuine _ ha := nomatch ha
  followed client := by
    have hchain := (h.readable (Ledger.sound_create key)).chain
    have hstarts : (Directory.create key).latest.snapshot.Starts (Directory.create key).publicKey :=
      (ValidChain.cons_iff.mp hchain).1
    simp only [start, Session.start_empty_eq hstarts]
    refine ⟨rfl, ⟨_, 0, rfl, Nat.one_pos, .ofStarts hstarts⟩, fun name promise hp => ?_⟩
    simp [Session.empty] at hp

theorem Honest.call (h : net.Honest) (c : Directory.Call) : (net.call c).Honest where
  sound := h.sound.step c
  genuine answer ha := (h.genuine answer ha).mono (net.ledger.grows_step c)
  followed client := (h.followed client).mono (net.ledger.grows_step c)

theorem Honest.send (h : net.Honest) {answer : Directory.Answer} (ha : net.ledger.Genuine answer) :
    (net.send answer).Honest where
  sound := h.sound
  genuine := List.forall_mem_cons.mpr ⟨ha, h.genuine⟩
  followed := h.followed

/-- An answer that arrives is taken for what it is. -/
theorem Honest.receive (h : net.Honest) (hr : net.Regular) (client : Client) {answer : Directory.Answer}
    {kind : RequestKind} {name : String} {expected : Option Bytes} (ha : answer ∈ net.sent)
    (hh : answer.HandledAs kind name expected) (hreach : (net.clients client).Reaches answer.response) :
    net.ledger.Outcome name answer
        ((net.clients client).receive Commitment.verify kind answer.response name expected).1 ∧
      net.ledger.Followed ((net.clients client).receive Commitment.verify kind answer.response name expected).2 := by
  have hg := h.genuine answer ha
  exact (h.followed client).receive h.sound (hr.readable h.sound) hg
    (fun promise hp => hr.promise_signed ha hg hp) hh hreach

variable [DecidableEq Client]

theorem Honest.become (h : net.Honest) (client : Client) {c : Session} (hc : net.ledger.Followed c) :
    (net.become client c).Honest where
  sound := h.sound
  genuine := h.genuine
  followed other := by
    simp only [Network.become, Function.update_apply]
    split
    · exact hc
    · exact h.followed other

/-- What was published stays published, and what was sent stays sent. -/
theorem Step.grows (hs : Step net net') : net.ledger.Grows net'.ledger ∧ net.sent ⊆ net'.sent := by
  cases hs with
  | register request => exact ⟨net.ledger.grows_step _, List.subset_cons_self _ _⟩
  | publish => exact ⟨net.ledger.grows_step _, List.Subset.refl _⟩
  | lookupAt h => exact ⟨.refl _, List.subset_cons_self _ _⟩
  | lookupSince h => exact ⟨.refl _, List.subset_cons_self _ _⟩
  | deliver client h hh hreach => exact ⟨.refl _, List.Subset.refl _⟩

/-- A network was regular if it is after a step. -/
theorem Regular.of_step (hs : Step net net') (h : net'.Regular) : net.Regular := by
  obtain ⟨hg, hsent⟩ := hs.grows
  have hkey : net'.ledger.directory.publicKey = net.ledger.directory.publicKey :=
    congrArg SigningKey.publicKey hg.key
  refine ⟨Nat.lt_of_le_of_lt hg.publications.length_le h.epochs,
    fun m hm => h.writable m (hg.published.subset hm), fun message hmessage => ?_⟩
  rw [← hkey, ← hg.key]
  refine h.signed message ?_
  rcases List.mem_append.mp hmessage with hm | hm
  · exact List.mem_append_left _ (List.map_subset _ hg.snapshots.subset hm)
  · exact List.mem_append_right _ (List.map_subset _ (List.filterMap_subset _ hsent) hm)

theorem Honest.step (hs : Step net net') (hr : net'.Regular) (h : net.Honest) : net'.Honest := by
  have hbefore := hr.of_step hs
  cases hs with
  | register request => exact (h.call (.register request)).send (Ledger.genuine_register h.sound request)
  | publish => exact h.call .publish
  | lookupAt ha => exact h.send (Ledger.genuine_lookupAt h.sound ha)
  | lookupSince ha => exact h.send (Ledger.genuine_lookupSince h.sound ha)
  | deliver client ha hh hreach => exact h.become client (h.receive hbefore client ha hh hreach).2

theorem Reachable.honest (h : net.Reachable) (hr : net.Regular) : net.Honest := by
  -- Regularity is known of the last network only, and goes back to the first step by step.
  induction h with
  | start key => exact honest_start hr
  | step _ hs ih => exact (ih (hr.of_step hs)).step hs hr

namespace Sample

open Directory.Sample (key entries first second directory answer)

def registration : Directory.Answer := .registration ⟨"alice", [1]⟩ answer

def lookup : Directory.Answer := .lookup (.ofProof ⟨[second], Commitment.proof ⟨[], entries⟩, none⟩)

/-- A name is registered. -/
def registered : Network Bool := ⟨⟨directory, [∅]⟩, [registration], (start Bool key).clients⟩

/-- One of two clients hears of the registration, before the name is published and looked up. -/
def network : Network Bool :=
  ((registered.become true ((registered.clients true).receive Commitment.verify .registration
    answer "alice" (some [1])).2).call .publish).send lookup

theorem reaches_registration (c : Session) : c.Reaches registration.response := by
  intro body first latest hb hf _
  cases hb
  cases hf
  exact Nat.zero_le _

theorem reaches_lookup (c : Session) : c.Reaches lookup.response := by
  intro body first latest hb hf _
  cases hb
  cases hf
  exact Nat.le_add_left 1 _

theorem reachable_registered : registered.Reachable := by
  have h := (Reachable.start key : (start Bool key).Reachable).step (.register ⟨"alice", [1]⟩)
  have he : ((start Bool key).call (.register ⟨"alice", [1]⟩)).send (.registration ⟨"alice", [1]⟩
      ((start Bool key).ledger.directory.register ⟨"alice", [1]⟩).1) = registered := by
    show (⟨⟨(Directory.create key).step (.register ⟨"alice", [1]⟩), [∅]⟩,
      [.registration ⟨"alice", [1]⟩ ((Directory.create key).register ⟨"alice", [1]⟩).1],
      (start Bool key).clients⟩ : Network Bool) = registered
    rw [Directory.Sample.step_create, Directory.Sample.register_create]
    rfl
  rwa [he] at h

theorem network_reachable : network.Reachable := by
  have hlookup : (directory.run [.publish]).lookupSince? 0 =
      some (.ofProof ⟨[second], Commitment.proof ⟨[], entries⟩, none⟩) := by
    rw [Directory.lookupSince?, Directory.snapshots, Directory.Sample.publications_run]
    rfl
  have hsent : registration ∈ registered.sent := .head _
  have htold := reachable_registered.step
    (.deliver true hsent (.registration _ _ (.inr rfl)) (reaches_registration _))
  exact (htold.step .publish).step (.lookupSince hlookup)

theorem promise_signed : (Promise.sign key "alice" [1] first).hasValidSignature key.publicKey = true := by
  decide +kernel

theorem network_regular : network.Regular where
  epochs := by
    show (directory.run [.publish]).publications.length < UInt64.size
    rw [Directory.Sample.publications_run]
    decide
  writable := by
    have hentries : entries.Writable :=
      Mapping.writable_empty.insert (by decide) (by decide) (by decide)
    exact List.forall_mem_cons.mpr ⟨Mapping.writable_empty, List.forall_mem_singleton.mpr hentries⟩
  signed := by
    intro message hm
    show key.publicKey.verify message (key.sign message) = true
    rcases List.mem_append.mp hm with hm | hm
    · obtain ⟨s, hs, rfl⟩ := List.mem_map.mp hm
      have hsnapshots : (directory.run [.publish]).snapshots = [first, second] := by
        rw [Directory.snapshots, Directory.Sample.publications_run]
        rfl
      have hsignature := (Directory.Sample.directory_reachable.step .publish).signature_eq hs
      obtain ⟨i, hi⟩ := List.getElem?_of_mem (hsnapshots ▸ hs : s ∈ [first, second])
      have hvalid := Session.Sample.validChain.signed hi
      rw [Snapshot.hasValidSignature, hsignature] at hvalid
      exact hvalid
    · obtain ⟨promise, hp, rfl⟩ := List.mem_map.mp hm
      obtain ⟨answer, ha, hp⟩ := List.mem_filterMap.mp hp
      have ha : answer ∈ [lookup, registration] := ha
      simp only [List.mem_cons, List.not_mem_nil, or_false] at ha
      rcases ha with rfl | rfl
      · cases hp
      · cases hp
        exact promise_signed

end Sample

/-- An honest directory is never accused. At any time no client has faulted, and every
answer that may arrive is taken for what it is. -/
theorem never_accused (h : net.Reachable) (hr : net.Regular) :
    (∀ client, (net.clients client).state = .tracking) ∧
    ∀ client, ∀ answer ∈ net.sent, ∀ kind name expected, answer.HandledAs kind name expected →
      (net.clients client).Reaches answer.response →
      net.ledger.Outcome name answer
        ((net.clients client).receive Commitment.verify kind answer.response name expected).1 := by
  have hn := h.honest hr
  refine ⟨fun client => ?_, fun client answer ha kind name expected hh hreach => ?_⟩
  · obtain ⟨tip, htip, -⟩ := (hn.followed client).exists_tip
    simp [Session.state, (hn.followed client).unfaulted, htip]
  · exact (hn.receive hr client ha hh hreach).1

theorem never_accused_sample :
    Sample.network.Reachable ∧ Sample.network.Regular ∧
    (∀ client, (Sample.network.clients client).state = .tracking) ∧
    ∀ client, Sample.lookup ∈ Sample.network.sent ∧ Sample.lookup.HandledAs .keyLookup "alice" none ∧
      (Sample.network.clients client).Reaches Sample.lookup.response ∧
      Sample.network.ledger.Outcome "alice" Sample.lookup
        ((Sample.network.clients client).receive Commitment.verify .keyLookup Sample.lookup.response
          "alice" none).1 := by
  have h := never_accused Sample.network_reachable Sample.network_regular
  have hsent : Sample.lookup ∈ Sample.network.sent := .head _
  have hh : Sample.lookup.HandledAs .keyLookup "alice" none := .lookup _ _
  refine ⟨Sample.network_reachable, Sample.network_regular, h.1,
    fun client => ⟨hsent, hh, Sample.reaches_lookup _, ?_⟩⟩
  exact h.2 client _ hsent _ _ _ hh (Sample.reaches_lookup _)

end Network

end KeyTransparency
