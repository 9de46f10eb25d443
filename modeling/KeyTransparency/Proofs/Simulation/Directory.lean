import KeyTransparency.Proofs.Chain.Valid
import KeyTransparency.Simulation.Directory

/-!
# Runs of a simulated directory

A directory takes registrations and publishes, in any order (`Directory.Call`,
`Directory.run`), and may be split at any time (`Directory.Reachable`). Publications stay
as they are, and each new one commits to what waited for it, under the salt of the
directory (`Directory.publications_run`).

* `Reachable.epoch_toNat`: the latest epoch, as long as epochs can be counted;
* `Reachable.validChain`: what was published is a valid chain, if the signatures are valid.
-/

namespace KeyTransparency

/-- The publication has the proof and the root of the commitment. -/
structure Publication.CommitsTo (p : Publication) (c : Commitment) : Prop where
  proof : p.proof = c.proof
  root : p.snapshot.root = c.root

namespace Directory

/-- What a directory can be asked that changes it. -/
inductive Call where
  | register (request : RegistrationRequest)
  | publish

/-- The directory after a call. -/
def step (d : Directory) : Call → Directory
  | .register request => (d.register request).2
  | .publish => d.publish

/-- The directory after calls made one after the other. -/
def run (d : Directory) (calls : List Call) : Directory := calls.foldl step d

/-- A new directory, what calls made of one, or one branch of it. -/
inductive Reachable : Directory → Prop
  | create (key : SigningKey) : Reachable (create key)
  | step {d : Directory} (h : Reachable d) (call : Call) : Reachable (d.step call)
  | fork {d : Directory} (h : Reachable d) (tag : String) : Reachable (d.fork tag)

/-- What the directory commits to next. -/
def upcoming (d : Directory) : Commitment := ⟨d.salt, d.pending⟩

/-- What the directory publishes next. -/
def next (d : Directory) : Publication :=
  ⟨d.latest.snapshot.successor d.key d.upcoming.root, d.upcoming.proof⟩

variable {d : Directory} {request : RegistrationRequest}

theorem next_commitsTo (d : Directory) : d.next.CommitsTo d.upcoming := ⟨rfl, rfl⟩

/-- A registration is answered from the mapping, refused, or promised. Only the last
changes the directory, and nothing of it but the mapping to come. -/
theorem register_cases (d : Directory) (request : RegistrationRequest) :
    (d.committed[request.name]? = some request.value ∧
      d.register request = (.ofProof ⟨[d.latest.snapshot], d.latest.proof, none⟩, d)) ∨
    d.register request = (.failure .alreadyExists, d) ∨
    (d.pending[request.name]? = none ∧ d.register request =
      (.ofProof ⟨[d.latest.snapshot], d.latest.proof,
          some (Promise.sign d.key request.name request.value d.latest.snapshot)⟩,
        { d with pending := d.pending.insert request.name request.value })) := by
  simp only [register]
  split
  · rename_i hc
    exact .inl ⟨hc, rfl⟩
  · split
    · exact .inr (.inl rfl)
    · rename_i hp
      have hn := Std.ExtTreeMap.getElem?_eq_none_of_contains_eq_false (Bool.eq_false_iff.mpr hp)
      exact .inr (.inr ⟨hn, rfl⟩)

/-- No call changes the key or the salt. A call leaves the publications as they are, or
adds the next one. -/
theorem step_cases (d : Directory) (call : Call) :
    (d.step call).key = d.key ∧ (d.step call).salt = d.salt ∧
      ((d.step call).earlier = d.earlier ∧ (d.step call).latest = d.latest ∨
        (d.step call).earlier = d.publications ∧ (d.step call).latest = d.next) := by
  cases call with
  | register request =>
    rcases d.register_cases request with ⟨-, he⟩ | he | ⟨-, he⟩ <;> simp [step, he]
  | publish => exact ⟨rfl, rfl, .inr ⟨rfl, rfl⟩⟩

theorem publications_step (d : Directory) (call : Call) :
    (d.step call).publications = d.publications ∨
      (d.step call).publications = d.publications ++ [d.next] := by
  obtain ⟨-, -, ⟨he, hl⟩ | ⟨he, hl⟩⟩ := d.step_cases call
  · exact .inl (by rw [publications, he, hl]; rfl)
  · exact .inr (by rw [publications, he, hl])

/-- Publications are added at the end, and each commits to some mapping under the salt. -/
theorem publications_run (d : Directory) (calls : List Call) :
    ∃ more, (d.run calls).publications = d.publications ++ more ∧
      ∀ p ∈ more, ∃ entries, p.CommitsTo ⟨d.salt, entries⟩ := by
  induction calls generalizing d with
  | nil => exact ⟨[], (List.append_nil _).symm, nofun⟩
  | cons call calls ih =>
    obtain ⟨more, hmore, hall⟩ := ih (d.step call)
    have hsalt : (d.step call).salt = d.salt := (d.step_cases call).2.1
    rw [hsalt] at hall
    rcases d.publications_step call with he | he
    · exact ⟨more, he ▸ hmore, hall⟩
    · refine ⟨d.next :: more, ?_, List.forall_mem_cons.mpr ⟨⟨d.pending, d.next_commitsTo⟩, hall⟩⟩
      rw [List.append_cons, ← he]
      exact hmore

theorem length_snapshots (d : Directory) : d.snapshots.length = d.publications.length := List.length_map _

theorem length_publications (d : Directory) : d.publications.length = d.earlier.length + 1 := by
  simp [publications]

/-- The epoch is the number of earlier publications, counted as epochs are. -/
theorem Reachable.epoch_eq (h : d.Reachable) : d.epoch = UInt64.ofNat d.earlier.length := by
  induction h with
  | create key => rfl
  | fork _ tag ih => exact ih
  | @step d _ call ih =>
    obtain ⟨-, -, ⟨he, hl⟩ | ⟨he, hl⟩⟩ := d.step_cases call
    · rw [epoch, he, hl]
      exact ih
    · rw [epoch, he, hl, length_publications, UInt64.ofNat_add, ← ih]
      rfl

theorem Reachable.epoch_toNat (h : d.Reachable) (hd : d.publications.length < UInt64.size) :
    d.publications.length = d.epoch.toNat + 1 := by
  rw [length_publications] at hd ⊢
  rw [h.epoch_eq, UInt64.toNat_ofNat_of_lt' (by omega)]

/-- Every snapshot is signed with the key of the directory. -/
theorem Reachable.signature_eq (h : d.Reachable) {s : Snapshot} (hs : s ∈ d.snapshots) :
    s.signature = d.key.sign (Snapshot.signedBytes s.epoch s.root s.previous) := by
  induction h with
  | create key =>
    obtain rfl := List.mem_singleton.mp hs
    rfl
  | fork _ tag ih => exact ih hs
  | @step d _ call ih =>
    obtain ⟨hk, -, -⟩ := d.step_cases call
    rw [hk]
    rw [snapshots] at hs ih
    rcases d.publications_step call with he | he
    · exact ih (he ▸ hs)
    · rw [he, List.map_append, List.mem_append] at hs
      rcases hs with hs | hs
      · exact ih hs
      · obtain rfl := List.mem_singleton.mp hs
        rfl

/-- What a directory published is a valid chain, if its signatures are valid. -/
theorem Reachable.validChain (h : d.Reachable) (hlen : d.publications.length < UInt64.size)
    (hsigned : ∀ s ∈ d.snapshots, s.hasValidSignature d.publicKey = true) :
    ValidChain d.publicKey d.snapshots := by
  induction h with
  | create key => exact .singleton ⟨rfl, rfl, hsigned _ (.head _)⟩
  | fork _ tag ih => exact ih hlen hsigned
  | @step d h call ih =>
    have hk : (d.step call).publicKey = d.publicKey := congrArg SigningKey.publicKey (d.step_cases call).1
    rw [hk] at hsigned ⊢
    rw [snapshots] at hsigned ih ⊢
    rcases d.publications_step call with he | he
    · rw [he] at hlen hsigned ⊢
      exact ih hlen hsigned
    · rw [he] at hlen hsigned ⊢
      rw [List.length_append, List.length_singleton] at hlen
      rw [List.map_append] at hsigned ⊢
      have hnext : d.next.snapshot.hasValidSignature d.publicKey = true := hsigned _ (by simp)
      have hlast : (d.publications.map (·.snapshot)).getLast? = some d.latest.snapshot := by
        simp [publications]
      refine (ih (by omega) fun s hs => hsigned s (List.mem_append_left _ hs)).append hlast ?_
      refine .cons_cons ⟨?_, rfl, hnext⟩ (.singleton _)
      have hepoch := h.epoch_toNat (by omega)
      show (d.epoch + 1).toNat = d.epoch.toNat + 1
      rw [UInt64.toNat_add, UInt64.toNat_one, Nat.mod_eq_of_lt]
      have : UInt64.size = 2 ^ 64 := rfl
      omega

/-! ## A directory before it is split -/

namespace Sample

def key : SigningKey := ⟨Block32.replicate 7⟩

/-- What is published at epoch 1. -/
def entries : Mapping := (∅ : Mapping).insert "alice" [1]

def first : Snapshot :=
  ⟨0, Commitment.root ⟨[], ∅⟩, Digest.zero,
    ⟨Block32.ofNatLE 0x7e24e8c71b827cfcc639d83176066dce905213bf73cfcda73ca80f65018bee2a,
      Block32.ofNatLE 0x21226d21f45ca2d8604fad5116c92177c3a70a54a0b82d48b06e23a889e5760⟩⟩

def second : Snapshot :=
  ⟨1, Commitment.root ⟨[], entries⟩, first.digest,
    ⟨Block32.ofNatLE 0xced3c1873fb3657b44f0ed6fa3be53dc84e9ceffb9c9ce1db09403d0801e580e,
      Block32.ofNatLE 0x947ef9398eff92637216d150ff19faf9d9df90107ee650c53723b9ca106bde9⟩⟩

/-- The snapshot that another branch has in the place of `second`, of the same mapping. -/
def forked : Snapshot :=
  ⟨1, Commitment.root ⟨Text.utf8 "fork", entries⟩, first.digest,
    ⟨Block32.ofNatLE 0x772b54f6b2b912ccb41864049b56b802bca15addaa32817cd32829777f644129,
      Block32.ofNatLE 0x8df55de7050378ed06e9eb9b0cf888ed142bfca2864ab7f042d05afeb4829fa⟩⟩

/-- A name waits for epoch 1. -/
def directory : Directory := ⟨key, [], ∅, entries, [], ⟨first, Commitment.proof ⟨[], ∅⟩⟩⟩

/-- What a registration at epoch 0 is answered. -/
def answer : Response :=
  .ofProof ⟨[first], Commitment.proof ⟨[], ∅⟩, some (Promise.sign key "alice" [1] first)⟩

theorem create_eq : create key = ⟨key, [], ∅, ∅, [], ⟨first, Commitment.proof ⟨[], ∅⟩⟩⟩ := by decide +kernel

theorem register_create : (create key).register ⟨"alice", [1]⟩ = (answer, directory) := by
  rw [create_eq]
  simp [register, answer, directory, entries]

theorem step_create : (create key).step (.register ⟨"alice", [1]⟩) = directory :=
  congrArg Prod.snd register_create

theorem directory_reachable : directory.Reachable :=
  step_create ▸ (Reachable.create key).step (.register ⟨"alice", [1]⟩)

theorem successor_first : first.successor key (Commitment.root ⟨[], entries⟩) = second := by decide +kernel

theorem successor_first_fork :
    first.successor key (Commitment.root ⟨Text.utf8 "fork", entries⟩) = forked := by decide +kernel

theorem publications_run : (directory.run [.publish]).publications =
    [⟨first, Commitment.proof ⟨[], ∅⟩⟩, ⟨second, Commitment.proof ⟨[], entries⟩⟩] :=
  successor_first ▸ rfl

theorem publications_run_fork : ((directory.fork "fork").run [.publish]).publications =
    [⟨first, Commitment.proof ⟨[], ∅⟩⟩, ⟨forked, Commitment.proof ⟨Text.utf8 "fork", entries⟩⟩] :=
  successor_first_fork ▸ rfl

theorem first_starts : first.Starts key.publicKey := ⟨rfl, rfl, by decide +kernel⟩

theorem second_follows : Snapshot.Follows key.publicKey first second := ⟨rfl, rfl, by decide +kernel⟩

theorem forked_follows : Snapshot.Follows key.publicKey first forked := ⟨rfl, rfl, by decide +kernel⟩

end Sample

end Directory

end KeyTransparency
