import KeyTransparency.Message.Promise
import KeyTransparency.Proofs.Wire.RoundTrip

/-!
# What a signature is for

A directory signs statements of two kinds with one key: what its mapping is at an epoch, in a
snapshot, and what a name will be bound to, in a promise (`Statement`). The signed bytes start
with the text that names the kind, and every field behind it says where it ends, whatever its
length. So they can be taken apart in one way only, even where it is not known where they end.

* `signed_statement_unique`: the bytes of a statement are not the start of those of another.
-/

namespace KeyTransparency

/-- What a directory signs. -/
inductive Statement where
  /-- The mapping has the root at the epoch, after the snapshot with the given digest. -/
  | snapshot (epoch : Epoch) (root previous : Digest)
  /-- The name will have the value after the epoch of the snapshot with the given digest. -/
  | promise (name : String) (value : Bytes) (snapshotDigest : Digest) (issuedAt : Epoch)

namespace Statement

/-- The bytes that the signature is made for. -/
def signedBytes : Statement → Bytes
  | snapshot epoch root previous => Snapshot.signedBytes epoch root previous
  | promise name value snapshotDigest issuedAt => Promise.signedBytes name value snapshotDigest issuedAt

/-- The text that the signed bytes start with. -/
def domain : Statement → String
  | snapshot .. => Snapshot.domain
  | promise .. => Promise.domain

/-- The fields in bytes, which follow that text. -/
def content : Statement → Bytes
  | snapshot epoch root previous =>
    (Codec.uint64.pair (Digest.codec.pair Digest.codec)).encode (epoch, root, previous)
  | promise name value snapshotDigest issuedAt =>
    (Codec.text.pair (Codec.bytes.pair (Digest.codec.pair Codec.uint64))).encode
      (name, value, snapshotDigest, issuedAt)

theorem signedBytes_eq (s : Statement) : s.signedBytes = Codec.text.encode s.domain ++ s.content := by
  cases s <;> rfl

theorem domain_ne : Snapshot.domain ≠ Promise.domain := by decide

theorem eq_of_snapshot_content {epoch epoch' : Epoch} {root root' previous previous' : Digest} {rest rest' : Bytes}
    (h : (snapshot epoch root previous).content ++ rest = (snapshot epoch' root' previous').content ++ rest') :
    snapshot epoch root previous = snapshot epoch' root' previous' := by
  have hd (epoch : Epoch) (root previous : Digest) :
      (Codec.uint64.pair (Digest.codec.pair Digest.codec)).Delimits (epoch, root, previous) :=
    .pair (.uint64 epoch) (.pair root.codec_delimits previous.codec_delimits)
  obtain ⟨he, -⟩ := (hd epoch root previous).roundTrips.inj (hd epoch' root' previous').roundTrips h
  cases he
  rfl

/-- Field by field: names and values end where their lengths say, the other fields have no
lengths. -/
theorem eq_of_promise_content {name name' : String} {value value' : Bytes} {d d' : Digest} {e e' : Epoch}
    {rest rest' : Bytes}
    (h : (promise name value d e).content ++ rest = (promise name' value' d' e').content ++ rest') :
    promise name value d e = promise name' value' d' e' := by
  have hd (d : Digest) (e : Epoch) : (Digest.codec.pair Codec.uint64).Delimits (d, e) :=
    .pair d.codec_delimits (.uint64 e)
  simp only [content, Codec.pair, List.append_assoc] at h
  obtain ⟨hname, hbehind⟩ := Codec.text_encode_inj h
  obtain ⟨hvalue, hbehind⟩ := Codec.bytes_encode_inj hbehind
  rw [← List.append_assoc, ← List.append_assoc] at hbehind
  obtain ⟨he, -⟩ := (hd d e).roundTrips.inj (hd d' e').roundTrips hbehind
  cases he
  rw [hname, hvalue]

/-- Statements whose signed bytes start the same are the same. -/
theorem eq_of_signedBytes_append {s t : Statement} {rest rest' : Bytes}
    (h : s.signedBytes ++ rest = t.signedBytes ++ rest') : s = t := by
  rw [signedBytes_eq, signedBytes_eq, List.append_assoc, List.append_assoc] at h
  obtain ⟨hdomain, hcontent⟩ := Codec.text_encode_inj h
  cases s with
  | snapshot epoch root previous =>
    cases t with
    | snapshot epoch' root' previous' => exact eq_of_snapshot_content hcontent
    | promise name value d e => exact absurd hdomain domain_ne
  | promise name value d e =>
    cases t with
    | snapshot epoch root previous => exact absurd hdomain.symm domain_ne
    | promise name' value' d' e' => exact eq_of_promise_content hcontent

end Statement

/-- No signature can be moved to another statement. The signed bytes of a statement are not the
start of those of another, of the same kind or not, and so are not equal to them either. The
bytes of a snapshot, with its signature, are not the start of those of another. -/
theorem signed_statement_unique :
    (∀ s t : Statement, s.signedBytes <+: t.signedBytes ↔ s = t) ∧
    ∀ s t : Snapshot, s.encode <+: t.encode ↔ s = t := by
  refine ⟨fun s t => ⟨?_, fun h => h ▸ List.prefix_refl _⟩, fun s t => ⟨?_, fun h => h ▸ List.prefix_refl _⟩⟩
  · rintro ⟨rest, h⟩
    rw [← List.append_nil t.signedBytes] at h
    exact Statement.eq_of_signedBytes_append h
  · rintro ⟨rest, h⟩
    rw [← List.append_nil t.encode] at h
    exact (s.codec_delimits.roundTrips.inj t.codec_delimits.roundTrips h).1

end KeyTransparency
