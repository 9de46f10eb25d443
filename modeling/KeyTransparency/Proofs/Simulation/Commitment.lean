import KeyTransparency.Proofs.Wire.RoundTrip
import KeyTransparency.Simulation.Commitment

/-!
# What a root is bound to

The root of a commitment is the digest of its proof. A proof is taken for the root of its
own digest alone (`digest_eq_of_verify`), and is then read the same by everyone. The proof
of a commitment of writable size proves its entries (`verify_proof`), and commitments with
different salts have different proofs, of whatever size they are (`salt_eq_of_proof_eq`).
-/

namespace KeyTransparency

/-- The names and values are so short, and so few, that their numbers can be written. -/
structure Mapping.Writable (m : Mapping) : Prop where
  size : m.size < UInt64.size
  entry : ∀ name value, m[name]? = some value →
    (Text.utf8 name).length < UInt64.size ∧ value.length < UInt64.size

namespace Mapping

theorem writable_empty : (∅ : Mapping).Writable where
  size := by simp
  entry name value hv := by simp at hv

theorem Writable.insert {m : Mapping} {name : String} {value : Bytes} (h : m.Writable)
    (hs : m.size + 1 < UInt64.size) (hn : (Text.utf8 name).length < UInt64.size)
    (hv : value.length < UInt64.size) : Writable (m.insert name value) where
  size := Nat.lt_of_le_of_lt Std.ExtTreeMap.size_insert_le hs
  entry name' value' he := by
    rw [getElem?_insert] at he
    split at he
    · rename_i hname
      cases hname
      cases he
      exact ⟨hn, hv⟩
    · exact h.entry name' value' he

end Mapping

namespace Commitment

variable {c c' : Commitment} {proof : Bytes} {root : Digest} {name : String} {value : Option Bytes}

theorem digest_eq_of_verify (h : verify proof root name = .ok value) : Digest.ofData proof = root := by
  rw [verify] at h
  split at h
  · cases h
  · rename_i hr
    exact Decidable.not_not.mp hr

theorem salt_eq_of_proof_eq (h : c.proof = c'.proof) : c.salt = c'.salt :=
  (Codec.bytes_encode_inj h).1

theorem codec_delimits (hs : c.salt.length < UInt64.size) (he : c.entries.Writable) : codec.Delimits c := by
  refine .convert ?_ rfl
  refine .pair (.bytes hs) (.mapping he.size fun name value hv => ?_)
  exact ⟨.text (he.entry name value hv).1, .bytes (he.entry name value hv).2⟩

/-- The proof of a commitment proves what is in it, and nothing else. -/
theorem verify_proof (hs : c.salt.length < UInt64.size) (he : c.entries.Writable) (name : String) :
    verify c.proof c.root name = .ok c.entries[name]? := by
  rw [verify, root, if_neg (Decidable.not_not.mpr rfl), proof, Codec.read_encode (codec_delimits hs he).roundTrips]

end Commitment

end KeyTransparency
