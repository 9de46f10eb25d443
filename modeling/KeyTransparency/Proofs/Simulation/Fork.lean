import KeyTransparency.Proofs.Client.Receive
import KeyTransparency.Proofs.Client.Verdict
import KeyTransparency.Proofs.Simulation.Commitment
import KeyTransparency.Proofs.Simulation.Directory

/-!
# A directory that is split

A directory is split, and both branches go on. What tells them apart is the salt: it is
part of every proof from then on, the roots are the digests of the proofs, and each
snapshot links to the one before it. Those who hold the snapshots of the two branches
(`View.ShowsUpTo`) hold the same ones up to the split and snapshots with different
digests after it (`Directory.forksAt_or_collide`), whatever the branches bind names to.

* `Directory.fork_detected`: what a session on one branch says of a log on the other.
-/

namespace KeyTransparency

/-- The view holds what the directory published up to the epoch `n`, and nothing else. -/
structure View.ShowsUpTo (v : View) (d : Directory) (n : Epoch) : Prop where
  published : n.toNat < d.publications.length
  shows : v.Shows (d.snapshots.take (n.toNat + 1))

namespace View.ShowsUpTo

variable {v : View} {d : Directory} {n e : Epoch} {s : Snapshot}

theorem exists_iff (h : v.ShowsUpTo d n) : (∃ s, v e = some s) ↔ e ≤ n := by
  have hp := h.published
  rw [h.shows.exists_iff, List.length_take, Directory.length_snapshots, UInt64.le_iff_toNat_le]
  omega

theorem exists_publication (h : v.ShowsUpTo d n) (hs : v e = some s) :
    ∃ p, d.publications[e.toNat]? = some p ∧ p.snapshot = s := by
  rw [h.shows, List.getElem?_take] at hs
  split at hs
  · exact Option.map_eq_some_iff.mp (List.getElem?_map ▸ hs)
  · cases hs

end View.ShowsUpTo

namespace Directory

/-- What the directory took digests of: the proofs and the snapshots that it published. -/
def hashed (d : Directory) : List Bytes := d.publications.flatMap fun p => [p.proof, p.snapshot.encode]

/-- Of what the two directories took digests of, two different strings have one digest. -/
def Collide (d f : Directory) : Prop :=
  ∃ x ∈ d.hashed, ∃ y ∈ f.hashed, x ≠ y ∧ Digest.ofData x = Digest.ofData y

variable {d : Directory} {tag : String} {calls forkCalls : List Call} {v w : View} {n m : Epoch}

theorem proof_mem_hashed {p : Publication} (hp : p ∈ d.publications) : p.proof ∈ d.hashed :=
  List.mem_flatMap.mpr ⟨p, hp, by simp⟩

theorem encode_mem_hashed {p : Publication} (hp : p ∈ d.publications) : p.snapshot.encode ∈ d.hashed :=
  List.mem_flatMap.mpr ⟨p, hp, by simp⟩

/-- What was published before, both branches have in common. -/
theorem publication_eq_of_lt {i : Nat} {p q : Publication} (hi : i < d.publications.length)
    (hp : (d.run calls).publications[i]? = some p)
    (hq : ((d.fork tag).run forkCalls).publications[i]? = some q) : p = q := by
  obtain ⟨more, hmore, -⟩ := d.publications_run calls
  obtain ⟨forkMore, hforkMore, -⟩ := (d.fork tag).publications_run forkCalls
  have hfork : (d.fork tag).publications = d.publications := rfl
  rw [hmore, List.getElem?_append_left hi] at hp
  rw [hforkMore, hfork, List.getElem?_append_left hi, hp] at hq
  exact Option.some.inj hq

/-- What is published after the split commits to another salt on either branch. -/
theorem proof_ne_of_le {i : Nat} {p q : Publication} (htag : Text.utf8 tag ≠ d.salt)
    (hi : d.publications.length ≤ i) (hp : (d.run calls).publications[i]? = some p)
    (hq : ((d.fork tag).run forkCalls).publications[i]? = some q) :
    p.proof ≠ q.proof ∧ p.snapshot.root = Digest.ofData p.proof ∧ q.snapshot.root = Digest.ofData q.proof := by
  obtain ⟨more, hmore, hall⟩ := d.publications_run calls
  obtain ⟨forkMore, hforkMore, hforkAll⟩ := (d.fork tag).publications_run forkCalls
  have hfork : (d.fork tag).publications = d.publications := rfl
  rw [hmore, List.getElem?_append_right hi] at hp
  rw [hforkMore, hfork, List.getElem?_append_right hi] at hq
  obtain ⟨entries, hpc⟩ := hall p (List.mem_of_getElem? hp)
  obtain ⟨forkEntries, hqc⟩ := hforkAll q (List.mem_of_getElem? hq)
  refine ⟨fun he => htag ?_, by rw [hpc.root, hpc.proof]; rfl, by rw [hqc.root, hqc.proof]; rfl⟩
  rw [hpc.proof, hqc.proof] at he
  exact (Commitment.salt_eq_of_proof_eq he).symm

/-- Those who hold valid chains of the two branches hold the same snapshots up to the
split. If they held snapshots with one digest later, they would agree just after the
split, where the proofs have different salts. -/
theorem forksAt_or_collide {key key' : PublicKey} {l l' : List Snapshot} (hd : d.Reachable)
    (hlen : d.publications.length < UInt64.size) (htag : Text.utf8 tag ≠ d.salt)
    (hv : v.ShowsUpTo (d.run calls) n) (hw : w.ShowsUpTo ((d.fork tag).run forkCalls) m)
    (hvl : v.Shows l) (hl : ValidChain key l) (hwl : w.Shows l') (hl' : ValidChain key' l') :
    View.ForksAt v w d.epoch ∨ Collide (d.run calls) ((d.fork tag).run forkCalls) := by
  by_cases hcol : Collide (d.run calls) ((d.fork tag).run forkCalls)
  · exact .inr hcol
  have hk := hd.epoch_toNat hlen
  refine .inl ⟨fun e s t hek hs ht => ?_, fun e s t hke hs ht hdigest => hcol ?_⟩
  · obtain ⟨p, hp, rfl⟩ := hv.exists_publication hs
    obtain ⟨q, hq, rfl⟩ := hw.exists_publication ht
    rw [UInt64.le_iff_toNat_le] at hek
    rw [publication_eq_of_lt (by omega) hp hq]
  · rcases View.agreeAt_or_collideAt hvl hl hwl hl' hs ht hdigest with hall | ⟨i, -, s', t', hs', ht', hne, heq⟩
    · obtain ⟨u, hu, hu'⟩ := hall e (UInt64.le_refl e)
      obtain ⟨p, hp, rfl⟩ := hv.exists_publication hu
      obtain ⟨q, hq, hqp⟩ := hw.exists_publication hu'
      rw [UInt64.lt_iff_toNat_lt] at hke
      obtain ⟨hproof, hpr, hqr⟩ := proof_ne_of_le htag (by omega) hp hq
      refine ⟨p.proof, proof_mem_hashed (List.mem_of_getElem? hp), q.proof,
        proof_mem_hashed (List.mem_of_getElem? hq), hproof, ?_⟩
      rw [← hpr, ← hqr, hqp]
    · obtain ⟨p, hp, rfl⟩ := hv.exists_publication hs'
      obtain ⟨q, hq, rfl⟩ := hw.exists_publication ht'
      exact ⟨_, encode_mem_hashed (List.mem_of_getElem? hp), _, encode_mem_hashed (List.mem_of_getElem? hq),
        hne, heq⟩

namespace Sample

theorem follower_showsUpTo :
    View.ShowsUpTo Session.Sample.follower.observedAt? (directory.run [.publish]) 1 where
  published := by
    rw [publications_run]
    decide
  shows := by
    rw [snapshots, publications_run]
    exact Session.Sample.follower_tracks.shows

theorem validChain_fork : ValidChain key.publicKey [first, forked] :=
  ValidChain.cons_iff.mpr ⟨first_starts, .cons_cons forked_follows (.singleton forked)⟩

/-- What a log has of the other branch. -/
def forkHistory : History := ⟨"directory:1", ⟨key.publicKey, forked⟩, [first, forked]⟩

/-- The log that takes what the other branch publishes. -/
def forkLog : AuditLog := ⟨(∅ : Std.ExtTreeMap DirectoryId History).insert first.directoryId forkHistory, none⟩

theorem forkLog_reachable : forkLog.Reachable := by
  have hs := AuditLog.empty.start_eq_of_validChain "directory:1"
    Std.ExtTreeMap.getElem?_empty validChain_fork
  have hrun := AuditLog.reachable_empty.run [.start "directory:1" key.publicKey [first, forked]]
  simp only [AuditLog.run, runCalls, AuditLog.step, hs] at hrun
  exact hrun

theorem forkLog_history : forkLog.history first.directoryId = .ok forkHistory :=
  AuditLog.history_eq_ok_iff.mpr Std.ExtTreeMap.getElem?_insert_self

theorem forkHistory_showsUpTo :
    View.ShowsUpTo forkHistory.at? ((directory.fork "fork").run [.publish]) 1 where
  published := by
    rw [publications_run_fork]
    decide
  shows := by
    rw [snapshots, publications_run_fork]
    exact fun _ => rfl

end Sample

/-- Every split of a directory is detected, at the right epoch. A session that holds the
snapshots of one branch beyond the split is shown those of the other by a log, from epoch
`a` to epoch `b`. If `b` is after the split, and `a` not beyond what can be compared, it
finds an equivocation at `a`, or just after the split if that is later. Otherwise it finds
nothing. The one exception are two strings that differ and have the same hash. -/
theorem fork_detected {verify : ProofVerifier} {c : Session} {log : AuditLog} {h : History} {id : DirectoryId}
    {a b : Epoch} (hd : d.Reachable) (hlen : d.publications.length < UInt64.size)
    (htag : Text.utf8 tag ≠ d.salt) (hc : Session.Reachable verify c)
    (hv : View.ShowsUpTo c.observedAt? (d.run calls) n) (hkn : d.epoch < n) (hl : log.Reachable)
    (hh : log.history id = .ok h) (hw : View.ShowsUpTo h.at? ((d.fork tag).run forkCalls) m)
    (hk : c.key? = some h.key) (hab : a ≤ b) (hbm : b ≤ m) :
    c.crossCheck (log.answer ⟨id, a, b⟩) =
        (if a.toNat ≤ n.toNat + 1 ∧ d.epoch < b then .error (.equivocation (max a (d.epoch + 1)))
          else .ok ()) ∨
      Collide (d.run calls) ((d.fork tag).run forkCalls) := by
  have hs : h.Sound := (hl.sound id h (AuditLog.history_eq_ok_iff.mp hh)).1
  rcases hc.cases with rfl | ⟨tip, l, ht⟩
  · cases hk
  have hn : tip.latest.epoch = n := by
    refine UInt64.le_antisymm ?_ ?_
    · exact hv.exists_iff.mp ((ht.holdsChain.held _).mpr (UInt64.le_refl _))
    · exact (ht.holdsChain.held _).mp (hv.exists_iff.mpr (UInt64.le_refl _))
  have hb : b ≤ h.latest.epoch := by
    have hm := h.shows_snapshots.exists_iff.mp (hw.exists_iff.mpr hbm)
    have hlatest := hs.length_eq
    rw [hlatest] at hm
    exact UInt64.le_iff_toNat_le.mpr (Nat.le_of_lt_succ hm)
  rcases forksAt_or_collide hd hlen htag hv hw ht.shows ht.chain.chain h.shows_snapshots hs.chain with hf | hcol
  · refine .inl ?_
    rw [Session.crossCheck_answer_of_forksAt ht hk hh hs hab hb hf (hn ▸ hkn), hn]
  · exact .inr hcol

theorem fork_detected_sample :
    Sample.directory.Reachable ∧ Text.utf8 "fork" ≠ Sample.directory.salt ∧
    View.ShowsUpTo Session.Sample.follower.observedAt? (Sample.directory.run [.publish]) 1 ∧
    View.ShowsUpTo Sample.forkHistory.at? ((Sample.directory.fork "fork").run [.publish]) 1 ∧
    (Session.Sample.follower.crossCheck (Sample.forkLog.answer ⟨Sample.first.directoryId, 0, 1⟩) =
        .error (.equivocation 1) ∨
      Collide (Sample.directory.run [.publish]) ((Sample.directory.fork "fork").run [.publish])) := by
  have htag : Text.utf8 "fork" ≠ Sample.directory.salt := by decide
  have hc : Session.Reachable Commitment.verify Session.Sample.follower :=
    ⟨Session.Sample.lookups, by rw [Session.Sample.run_lookups]⟩
  have hverdict := fork_detected (a := 0) (b := 1) Sample.directory_reachable (by decide) htag hc
    Sample.follower_showsUpTo (by decide) Sample.forkLog_reachable Sample.forkLog_history
    Sample.forkHistory_showsUpTo rfl (by decide) (by decide)
  refine ⟨Sample.directory_reachable, htag, Sample.follower_showsUpTo, Sample.forkHistory_showsUpTo, ?_⟩
  exact hverdict.imp_left fun h => h.trans (if_pos ⟨by decide, by decide⟩)

end Directory

end KeyTransparency
