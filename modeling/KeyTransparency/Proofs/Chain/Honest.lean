import KeyTransparency.Proofs.Chain.Valid

/-!
# Chains that are signed

What a directory signs, one snapshot after the other (`Snapshot.chain`), is a valid chain under
its public key (`validChain_chain`): epochs and links are made as they are checked, and what is
signed is what the signature is checked for. That signatures are valid is assumed, for those
messages only that are signed in the chain (`SigningKey.Verifies`).
-/

namespace KeyTransparency

/-- The signature that the key makes of the message is valid under its public key. -/
def SigningKey.Verifies (sk : SigningKey) (message : Bytes) : Prop :=
  sk.publicKey.verify message (sk.sign message) = true

namespace Snapshot

/-- What the signature of the snapshot is made for. -/
def signedMessage (s : Snapshot) : Bytes := signedBytes s.epoch s.root s.previous

variable {sk : SigningKey} {s : Snapshot} {root : Digest} {roots : List Digest}

theorem starts_genesis (h : sk.Verifies (genesis sk root).signedMessage) : (genesis sk root).Starts sk.publicKey :=
  ⟨rfl, rfl, h⟩

theorem follows_successor (he : s.epoch.toNat + 1 < UInt64.size) (h : sk.Verifies (s.successor sk root).signedMessage) :
    Follows sk.publicKey s (s.successor sk root) := by
  refine ⟨?_, rfl, h⟩
  show (s.epoch + 1).toNat = s.epoch.toNat + 1
  rw [UInt64.toNat_add, UInt64.toNat_one]
  exact Nat.mod_eq_of_lt he

/-- By induction on the roots, each of which takes one of the epochs that are left. -/
theorem isChain_chain (hlen : s.epoch.toNat + roots.length < UInt64.size)
    (h : ∀ t ∈ chain sk (some s) roots, sk.Verifies t.signedMessage) :
    (s :: chain sk (some s) roots).IsChain (Follows sk.publicKey) := by
  induction roots generalizing s with
  | nil => exact .singleton s
  | cons root roots ih =>
    rw [List.length_cons] at hlen
    obtain ⟨hnext, hlater⟩ := List.forall_mem_cons.mp h
    have hfollows : Follows sk.publicKey s (next (some s) sk root) := follows_successor (by omega) hnext
    refine .cons_cons hfollows (ih ?_ hlater)
    rw [hfollows.epoch]
    omega

end Snapshot

variable {sk : SigningKey} {root : Digest} {roots : List Digest}

/-- The epochs go up to the last one there is. -/
theorem validChain_chain (hlen : roots.length < UInt64.size)
    (h : ∀ s ∈ Snapshot.chain sk none (root :: roots), sk.Verifies s.signedMessage) :
    ValidChain sk.publicKey (Snapshot.chain sk none (root :: roots)) := by
  obtain ⟨hfirst, hlater⟩ := List.forall_mem_cons.mp h
  refine ValidChain.cons_iff.mpr ⟨Snapshot.starts_genesis hfirst, Snapshot.isChain_chain ?_ hlater⟩
  rw [show (Snapshot.next none sk root).epoch.toNat = 0 from rfl, Nat.zero_add]
  exact hlen

end KeyTransparency
