import KeyTransparency.Message.Request
import KeyTransparency.Message.Response
import KeyTransparency.Proofs.Audit.Store
import KeyTransparency.Proofs.Chain.Valid
import KeyTransparency.Proofs.Simulation.Commitment

/-!
# Messages, files and rows

Whatever is sent or stored is written by a codec that is put together from those of its parts,
and is delimited because its parts are (`Codec.Delimits`). What holds of the parts is that their
lengths can be written: a length is a number below `2 ^ 64` (`Response.Writable` and the like).

* `wire_round_trip`: what is written is read back, whatever follows it, and is not read if any
  of its bytes are missing at the end.
-/

namespace KeyTransparency

/-- What is written for `a` is read back from all bytes that start with it, and is not read from
fewer: the bytes end too early. -/
structure Codec.Transmits {α : Type} (c : Codec α) (a : α) : Prop where
  whole : ∀ t, c.read (c.encode a ++ t) = .ok a
  cut : ∀ p, p <+: c.encode a → p ≠ c.encode a → c.read p = .error .unexpectedEnd

theorem Codec.Delimits.transmits {α : Type} {c : Codec α} {a : α} (h : c.Delimits a) : c.Transmits a :=
  ⟨h.roundTrips.read_append, fun _ => h.read_cut⟩

theorem Codec.delimits_snapshots {l : List Snapshot} (h : l.length < UInt64.size) :
    (Codec.list Snapshot.codec).Delimits l :=
  .list h fun s _ => s.codec_delimits

theorem Status.codec_delimits (s : Status) : codec.Delimits s :=
  .enumeration s.mem_all (by decide)

theorem DirectoryId.codec_delimits (id : DirectoryId) : codec.Delimits id :=
  .convert (.block32 id.block) rfl

/-! ## Responses -/

/-- The lengths of the name and the value can be written. -/
structure Promise.Writable (p : Promise) : Prop where
  name : (Text.utf8 p.name).length < UInt64.size
  value : p.value.length < UInt64.size

theorem Promise.codec_delimits {p : Promise} (h : p.Writable) : codec.Delimits p := by
  refine .convert ?_ rfl
  refine .pair (.text h.name) (.pair (.bytes h.value) ?_)
  exact .pair p.snapshotDigest.codec_delimits (.pair (.uint64 p.issuedAt) p.signature.codec_delimits)

/-- The lengths of what the answer of a directory has in it can be written. -/
structure MappingProof.Writable (p : MappingProof) : Prop where
  snapshots : p.snapshots.length < UInt64.size
  proof : p.proof.length < UInt64.size
  promise : ∀ promise, p.promise = some promise → promise.Writable

theorem MappingProof.codec_delimits {p : MappingProof} (h : p.Writable) : codec.Delimits p := by
  refine .convert ?_ rfl
  refine .pair (Codec.delimits_snapshots h.snapshots) (.pair (.bytes h.proof) ?_)
  cases hp : p.promise with
  | none => exact .option_none
  | some promise => exact .option_some (Promise.codec_delimits (h.promise promise hp))

def Body.Writable : Body → Prop
  | proof content => content.Writable
  | history snapshots => snapshots.length < UInt64.size

theorem Body.codec_delimits {b : Body} (h : b.Writable) : codec.Delimits b := by
  cases b with
  | proof content => exact .convert (.either_inl (MappingProof.codec_delimits h)) rfl
  | history snapshots => exact .convert (.either_inr (Codec.delimits_snapshots h)) rfl

def Response.Writable (r : Response) : Prop := ∀ body, r.body = some body → body.Writable

theorem Response.codec_delimits {r : Response} (h : r.Writable) : codec.Delimits r := by
  refine .convert (.pair r.status.codec_delimits ?_) rfl
  cases hb : r.body with
  | none => exact .option_none
  | some body => exact .option_some (Body.codec_delimits (h body hb))

theorem Response.ofBytes_toBytes_append {r : Response} (h : r.Writable) (t : Bytes) :
    ofBytes (r.toBytes ++ t) = .ok r := by
  rw [ofBytes, toBytes, (codec_delimits h).transmits.whole]

theorem Response.ofBytes_cut {r : Response} (h : r.Writable) {p : Bytes} (hp : p <+: r.toBytes)
    (hne : p ≠ r.toBytes) : ofBytes p = .error (.undecodable .unexpectedEnd) := by
  rw [ofBytes, (codec_delimits h).transmits.cut p hp hne]

/-! ## Requests -/

/-- The lengths of the name and the value can be written. -/
structure RegistrationRequest.Writable (r : RegistrationRequest) : Prop where
  name : (Text.utf8 r.name).length < UInt64.size
  value : r.value.length < UInt64.size

theorem RegistrationRequest.codec_delimits {r : RegistrationRequest} (h : r.Writable) : codec.Delimits r :=
  .convert (.pair (.text h.name) (.bytes h.value)) rfl

theorem LookupRequest.codec_delimits {r : LookupRequest} (h : (Text.utf8 r.name).length < UInt64.size) :
    codec.Delimits r :=
  .convert (.text h) rfl

theorem RangeRequest.codec_delimits (r : RangeRequest) : codec.Delimits r :=
  .convert (.pair r.directory.codec_delimits (.pair (.uint64 r.first) (.uint64 r.last))) rfl

/-! ## All that is written -/

namespace Sample

/-- A promise with a name and a value. The signature is of something else, which does not matter here. -/
def promise : Promise := ⟨"alice", [1, 2], first.digest, 0, first.signature⟩

theorem promise_writable : promise.Writable := ⟨by decide, by decide⟩

/-- The answer of a directory with snapshots, a proof and a promise. -/
def response : Response := .ofProof ⟨[first, left], [3], some promise⟩

theorem response_writable : response.Writable := by
  rintro body hbody
  cases hbody
  refine ⟨by decide, by decide, fun p hp => ?_⟩
  cases hp
  exact promise_writable

/-- A commitment with a salt and one name. -/
def commitment : Commitment := ⟨[7], (∅ : Mapping).insert "alice" [1]⟩

theorem commitment_writable : commitment.entries.Writable :=
  Mapping.writable_empty.insert (by decide) (by decide) (by decide)

end Sample

/-- Whatever is sent or stored is read back from the bytes it was written as, whatever follows
them, and from none of these bytes that lack some at the end. -/
theorem wire_round_trip :
    (∀ r : Response, r.Writable → (∀ t, Response.ofBytes (r.toBytes ++ t) = .ok r) ∧
      ∀ p, p <+: r.toBytes → p ≠ r.toBytes → Response.ofBytes p = .error (.undecodable .unexpectedEnd)) ∧
    (∀ s : Snapshot, Snapshot.codec.Transmits s) ∧
    (∀ l : List Snapshot, l.length < UInt64.size → (Codec.list Snapshot.codec).Transmits l) ∧
    (∀ r : Record, (Text.utf8 r.address).length < UInt64.size → Record.codec.Transmits r) ∧
    (∀ p : Promise, p.Writable → Promise.codec.Transmits p) ∧
    (∀ r : RegistrationRequest, r.Writable → RegistrationRequest.codec.Transmits r) ∧
    (∀ r : LookupRequest, (Text.utf8 r.name).length < UInt64.size → LookupRequest.codec.Transmits r) ∧
    (∀ r : RangeRequest, RangeRequest.codec.Transmits r) ∧
    ∀ c : Commitment, c.salt.length < UInt64.size → c.entries.Writable → Commitment.codec.Transmits c :=
  ⟨fun _ h => ⟨Response.ofBytes_toBytes_append h, fun _ => Response.ofBytes_cut h⟩,
    fun s => s.codec_delimits.transmits,
    fun _ h => (Codec.delimits_snapshots h).transmits,
    fun _ h => (Record.codec_delimits h).transmits,
    fun _ h => (Promise.codec_delimits h).transmits,
    fun _ h => (RegistrationRequest.codec_delimits h).transmits,
    fun _ h => (LookupRequest.codec_delimits h).transmits,
    fun r => r.codec_delimits.transmits,
    fun _ hs he => (Commitment.codec_delimits hs he).transmits⟩

theorem wire_round_trip_sample :
    Sample.response.Writable ∧
    (∀ t, Response.ofBytes (Sample.response.toBytes ++ t) = .ok Sample.response) ∧
    (Codec.list Snapshot.codec).Transmits [Sample.first, Sample.left] ∧
    Record.codec.Transmits ⟨"directory:1", Sample.key⟩ ∧
    Promise.codec.Transmits Sample.promise ∧
    RegistrationRequest.codec.Transmits ⟨"alice", [1]⟩ ∧
    LookupRequest.codec.Transmits ⟨"alice"⟩ ∧
    Commitment.codec.Transmits Sample.commitment := by
  obtain ⟨hresponse, -, hsnapshots, hrecord, hpromise, hregistration, hlookup, -, hcommitment⟩ := wire_round_trip
  exact ⟨Sample.response_writable, (hresponse _ Sample.response_writable).1, hsnapshots _ (by decide),
    hrecord _ (by decide), hpromise _ Sample.promise_writable, hregistration _ ⟨by decide, by decide⟩,
    hlookup _ (by decide), hcommitment _ (by decide) Sample.commitment_writable⟩

end KeyTransparency
