import KeyTransparency.Proofs.Simulation.Directory

/-!
# What a directory published and promised

A ledger is a directory together with the mapping that it published at each epoch
(`Ledger`). Every publication commits to its mapping, and what is published waited before
(`Ledger.Sound`). What waits once is in every mapping from the next epoch on
(`Ledger.Promised`), because a name that waits for a value is not given another one. A
ledger only grows (`grows_step`).

* `Ledger.Genuine`: what an answer of the directory says is in its ledger;
* `genuine_register`, `genuine_lookupAt`, `genuine_lookupSince`: that is so when the
  directory gives the answer, and stays so (`Genuine.mono`).
-/

namespace KeyTransparency

/-- An answer of a directory, to a registration or to a lookup. -/
inductive Directory.Answer where
  | registration (request : RegistrationRequest) (response : Response)
  | lookup (response : Response)

namespace Directory.Answer

def response : Answer → Response
  | registration _ response => response
  | lookup response => response

end Directory.Answer

/-- A directory, and the mapping that it published at each epoch. -/
structure Ledger where
  directory : Directory
  published : List Mapping

namespace Ledger

def create (key : SigningKey) : Ledger := ⟨Directory.create key, [(Directory.create key).committed]⟩

/-- The ledger after a call. -/
def step (l : Ledger) (call : Directory.Call) : Ledger where
  directory := l.directory.step call
  published :=
    match call with
    | .register _ => l.published
    | .publish => l.published ++ [l.directory.publish.committed]

/-- The snapshots that the directory published from epoch `i` to epoch `j`. -/
def piece (l : Ledger) (i j : Nat) : List Snapshot := (l.directory.snapshots.drop i).take (j + 1 - i)

/-- At epoch `i` the directory published `p`, for the mapping `m`. -/
structure Entry (l : Ledger) (i : Nat) (p : Publication) (m : Mapping) : Prop where
  publication : l.directory.publications[i]? = some p
  mapping : l.published[i]? = some m

/-- The name has the value in every mapping after epoch `i`, and in the one to come. -/
structure Promised (l : Ledger) (name : String) (value : Bytes) (i : Nat) : Prop where
  waits : l.directory.pending[name]? = some value
  kept : ∀ j m, i < j → l.published[j]? = some m → m[name]? = some value

/-- The directory is one that was not split, and published the mappings. -/
structure Sound (l : Ledger) : Prop where
  reachable : l.directory.Reachable
  unsalted : l.directory.salt = []
  length : l.published.length = l.directory.publications.length
  commits : ∀ i p m, l.Entry i p m → p.CommitsTo ⟨[], m⟩
  latest : l.published.getLast? = some l.directory.committed
  waits : ∀ (name : String) (value : Bytes), l.directory.committed[name]? = some value →
    l.directory.pending[name]? = some value

/-- The second ledger is the first one at a later time. -/
structure Grows (l l' : Ledger) : Prop where
  key : l'.directory.key = l.directory.key
  publications : l.directory.publications <+: l'.directory.publications
  published : l.published <+: l'.published
  promised : ∀ name value i, l.Promised name value i → l'.Promised name value i

variable {l l' : Ledger} {request : RegistrationRequest} {i j : Nat} {p : Publication} {m : Mapping}

/-! ## Steps -/

theorem Sound.entry_latest (hl : l.Sound) :
    l.Entry l.directory.earlier.length l.directory.latest l.directory.committed where
  publication := by rw [Directory.publications, List.getElem?_concat_length]
  mapping := by
    have hlatest := hl.latest
    rw [List.getLast?_eq_getElem?, hl.length, Directory.length_publications] at hlatest
    exact hlatest

theorem Sound.exists_entry (hl : l.Sound) (hp : l.directory.publications[i]? = some p) : ∃ m, l.Entry i p m := by
  have hi := (List.getElem?_eq_some_iff.mp hp).1
  rw [← hl.length] at hi
  exact ⟨_, hp, List.getElem?_eq_getElem hi⟩

theorem Entry.lt_length (h : l.Entry i p m) : i < l.directory.publications.length :=
  (List.getElem?_eq_some_iff.mp h.publication).1

theorem Entry.piece_eq_singleton (h : l.Entry i p m) : l.piece i i = [p.snapshot] := by
  obtain ⟨hi, rfl⟩ := List.getElem?_eq_some_iff.mp h.publication
  rw [piece, Directory.snapshots, ← List.map_drop, List.drop_eq_getElem_cons hi, Nat.add_sub_cancel_left]
  rfl

theorem sound_create (key : SigningKey) : (create key).Sound where
  reachable := .create key
  unsalted := rfl
  length := rfl
  commits i p m h := by
    obtain ⟨hp, hm⟩ := h
    cases i with
    | zero =>
      cases hp
      cases hm
      exact ⟨rfl, rfl⟩
    | succ i => cases hp
  latest := rfl
  waits _ _ hv := hv

/-- A registration changes nothing, or lets a name wait that did not. -/
theorem step_register_cases (l : Ledger) (request : RegistrationRequest) :
    l.step (.register request) = l ∨
    (l.directory.pending[request.name]? = none ∧ l.step (.register request) =
      { l with directory :=
        { l.directory with pending := l.directory.pending.insert request.name request.value } }) := by
  have hstep : l.step (.register request) = ⟨(l.directory.register request).2, l.published⟩ := rfl
  rcases l.directory.register_cases request with ⟨-, he⟩ | he | ⟨hn, he⟩
  · exact .inl (by rw [hstep, he])
  · exact .inl (by rw [hstep, he])
  · exact .inr ⟨hn, by rw [hstep, he]⟩

/-- What waits still waits when another name comes to wait. -/
theorem getElem?_pending_insert {name : String} {value : Bytes} {pending : Mapping}
    (hn : pending[request.name]? = none) (hv : pending[name]? = some value) :
    (pending.insert request.name request.value)[name]? = some value := by
  rw [getElem?_insert, if_neg, hv]
  rintro rfl
  rw [hn] at hv
  cases hv

theorem entry_publish_cases (hl : l.Sound) (h : (l.step .publish).Entry i p m) :
    l.Entry i p m ∨ (p = l.directory.next ∧ m = l.directory.pending) := by
  obtain ⟨hp, hm⟩ := h
  have hp : (l.directory.publications ++ [l.directory.next])[i]? = some p := hp
  have hm : (l.published ++ [l.directory.pending])[i]? = some m := hm
  rcases Nat.lt_or_ge i l.published.length with hi | hi
  · rw [List.getElem?_append_left (hl.length ▸ hi)] at hp
    rw [List.getElem?_append_left hi] at hm
    exact .inl ⟨hp, hm⟩
  · rw [List.getElem?_append_right (hl.length ▸ hi)] at hp
    rw [List.getElem?_append_right hi] at hm
    exact .inr ⟨List.mem_singleton.mp (List.mem_of_getElem? hp), List.mem_singleton.mp (List.mem_of_getElem? hm)⟩

theorem Sound.step (hl : l.Sound) (call : Directory.Call) : (l.step call).Sound := by
  have hr : (l.step call).directory.Reachable := hl.reachable.step call
  cases call with
  | register request =>
    rcases l.step_register_cases request with he | ⟨hn, he⟩
    · rw [he]
      exact hl
    · rw [he] at hr ⊢
      exact ⟨hr, hl.unsalted, hl.length, fun i p m h => hl.commits i p m ⟨h.publication, h.mapping⟩, hl.latest,
        fun name value hv => getElem?_pending_insert hn (hl.waits name value hv)⟩
  | publish =>
    refine ⟨hr, hl.unsalted, ?_, fun i p m h => ?_, List.getLast?_concat, fun _ _ hv => hv⟩
    · show (l.published ++ [l.directory.pending]).length = (l.directory.publications ++ [l.directory.next]).length
      rw [List.length_append, List.length_append, hl.length]
      rfl
    · rcases entry_publish_cases hl h with h | ⟨rfl, rfl⟩
      · exact hl.commits i p m h
      · have hc := l.directory.next_commitsTo
        rwa [Directory.upcoming, hl.unsalted] at hc

theorem Grows.refl (l : Ledger) : l.Grows l :=
  ⟨rfl, List.prefix_refl _, List.prefix_refl _, fun _ _ _ => id⟩

/-- A promise is kept by what is published next, because what was promised waits. -/
theorem grows_step (l : Ledger) (call : Directory.Call) : l.Grows (l.step call) := by
  cases call with
  | register request =>
    rcases l.step_register_cases request with he | ⟨hn, he⟩
    · rw [he]
      exact .refl l
    · rw [he]
      exact ⟨rfl, List.prefix_refl _, List.prefix_refl _,
        fun name value i h => ⟨getElem?_pending_insert hn h.waits, h.kept⟩⟩
  | publish =>
    refine ⟨rfl, List.prefix_append _ _, List.prefix_append _ _,
      fun name value i h => ⟨h.waits, fun j m hij hm => ?_⟩⟩
    have hm : (l.published ++ [l.directory.pending])[j]? = some m := hm
    rcases Nat.lt_or_ge j l.published.length with hj | hj
    · rw [List.getElem?_append_left hj] at hm
      exact h.kept j m hij hm
    · rw [List.getElem?_append_right hj] at hm
      obtain rfl := List.mem_singleton.mp (List.mem_of_getElem? hm)
      exact h.waits

theorem Entry.mono (hg : l.Grows l') (h : l.Entry i p m) : l'.Entry i p m where
  publication := by
    obtain ⟨hi, rfl⟩ := List.getElem?_eq_some_iff.mp h.publication
    exact List.prefix_iff_getElem?.mp hg.publications i hi
  mapping := by
    obtain ⟨hi, rfl⟩ := List.getElem?_eq_some_iff.mp h.mapping
    exact List.prefix_iff_getElem?.mp hg.published i hi

/-! ## Answers -/

/-- What the answer says is in the ledger. An answer to a registration refuses it, or
shows the name bound as asked, or promises it under a mapping without the name. An answer
to a lookup ends in the snapshot that its proof is made for. -/
inductive Genuine (l : Ledger) : Directory.Answer → Prop
  | refused (request : RegistrationRequest) : Genuine l (.registration request (.failure .alreadyExists))
  | present {request : RegistrationRequest} {i : Nat} {p : Publication} {m : Mapping} (h : l.Entry i p m)
      (hv : m[request.name]? = some request.value) :
      Genuine l (.registration request (.ofProof ⟨[p.snapshot], p.proof, none⟩))
  | promised {request : RegistrationRequest} {i : Nat} {p : Publication} {m : Mapping} (h : l.Entry i p m)
      (hv : m[request.name]? = none) (hp : l.Promised request.name request.value i) :
      Genuine l (.registration request (.ofProof ⟨[p.snapshot], p.proof,
        some (Promise.sign l.directory.key request.name request.value p.snapshot)⟩))
  | lookup {i j : Nat} {p : Publication} {m : Mapping} (h : l.Entry j p m) (hi : i ≤ j + 1) :
      Genuine l (.lookup (.ofProof ⟨l.piece i j, p.proof, none⟩))

theorem Grows.snapshots (hg : l.Grows l') : l.directory.snapshots <+: l'.directory.snapshots :=
  hg.publications.map _

/-- A piece of the snapshots, up to one that was published, stays that piece. -/
theorem Grows.piece_eq (hg : l.Grows l') (hj : j < l.directory.publications.length) :
    l'.piece i j = l.piece i j := by
  obtain ⟨more, hmore⟩ := hg.snapshots
  have hlen : j + 1 ≤ l.directory.snapshots.length := by
    rw [Directory.length_snapshots]
    exact hj
  rw [piece, piece, ← List.drop_take, ← List.drop_take, ← hmore, List.take_append_of_le_length hlen]

theorem Genuine.mono (hg : l.Grows l') {answer : Directory.Answer} (h : l.Genuine answer) : l'.Genuine answer := by
  cases h with
  | refused request => exact .refused request
  | present h hv => exact .present (h.mono hg) hv
  | promised h hv hp => exact hg.key ▸ .promised (h.mono hg) hv (hg.promised _ _ _ hp)
  | lookup h hi =>
    rw [← hg.piece_eq h.lt_length]
    exact .lookup (h.mono hg) hi

theorem genuine_register (hl : l.Sound) (request : RegistrationRequest) :
    (l.step (.register request)).Genuine (.registration request (l.directory.register request).1) := by
  have hlatest := hl.entry_latest.mono (l.grows_step (.register request))
  rcases l.directory.register_cases request with ⟨hv, he⟩ | he | ⟨hn, he⟩
  · rw [he]
    exact .present hlatest hv
  · rw [he]
    exact .refused request
  · have habsent : l.directory.committed[request.name]? = none := by
      cases hv : l.directory.committed[request.name]? with
      | none => rfl
      | some value =>
        rw [hl.waits request.name value hv] at hn
        cases hn
    have hkey : (l.step (.register request)).directory.key = l.directory.key := (l.grows_step _).key
    rw [he, ← hkey]
    refine .promised hlatest habsent ⟨?_, fun j m hij hm => ?_⟩
    · show (l.directory.register request).2.pending[request.name]? = some request.value
      rw [he]
      exact Std.ExtTreeMap.getElem?_insert_self
    · -- Nothing has been published after the latest mapping.
      have hj := (List.getElem?_eq_some_iff.mp (show l.published[j]? = some m from hm)).1
      rw [hl.length, Directory.length_publications] at hj
      omega

theorem genuine_lookupAt (hl : l.Sound) {epoch : Epoch} {r : Response}
    (hr : l.directory.lookupAt? epoch = some r) : l.Genuine (.lookup r) := by
  obtain ⟨p, hp, rfl⟩ := Option.map_eq_some_iff.mp hr
  obtain ⟨m, h⟩ := hl.exists_entry hp
  rw [← h.piece_eq_singleton]
  exact .lookup h (Nat.le_succ _)

theorem genuine_lookupSince (hl : l.Sound) {since : Epoch} {r : Response}
    (hr : l.directory.lookupSince? since = some r) : l.Genuine (.lookup r) := by
  have hlen := l.directory.length_publications
  rw [Directory.lookupSince?] at hr
  split at hr
  · rename_i hs
    cases hr
    rw [hlen] at hs
    have hall : l.piece (since.toNat + 1) l.directory.earlier.length =
        l.directory.snapshots.drop (since.toNat + 1) := by
      refine List.take_of_length_le ?_
      rw [List.length_drop, Directory.length_snapshots, hlen]
    rw [← hall]
    exact .lookup hl.entry_latest (Nat.succ_le_of_lt hs)
  · cases hr

end Ledger

end KeyTransparency
