import KeyTransparency.Proofs.Wire.Messages

/-!
# The shortest spelling of a message

A reader takes more than a writer writes: numbers in more groups than they need, and bytes
behind the message. What is written is the shortest of all that is read as the same value all
the same, and the only one as short (`Codec.WritesShortest`). A group more than a number needs
is a byte more (`Varint.decodeGroups_spelling`), and where a value is read piece by piece, each
piece is as long as what is written for it, or longer (`WritesShortest.of_bind`).

* `canonical_is_shortest`: this, of responses.
-/

namespace KeyTransparency

/-- The second string is the first one, or is longer. -/
def Bytes.SameOrLonger (bs spelling : Bytes) : Prop := spelling = bs ∨ bs.length < spelling.length

namespace Bytes.SameOrLonger

variable {bs cs spelling spelling' : Bytes}

theorem refl (bs : Bytes) : SameOrLonger bs bs := .inl rfl

theorem append (h : SameOrLonger bs spelling) (h' : SameOrLonger cs spelling') :
    SameOrLonger (bs ++ cs) (spelling ++ spelling') := by
  rcases h with rfl | hlt
  · rcases h' with rfl | hlt'
    · exact .refl _
    · exact .inr (by rw [List.length_append, List.length_append]; omega)
  · refine .inr ?_
    rw [List.length_append, List.length_append]
    rcases h' with rfl | hlt'
    · omega
    · omega

/-- Bytes behind a spelling make it longer. -/
theorem append_right (h : SameOrLonger bs spelling) (rest : Bytes) : SameOrLonger bs (spelling ++ rest) := by
  have hrest : SameOrLonger [] rest := by
    cases rest with
    | nil => exact .refl []
    | cons b rest => exact .inr (Nat.succ_pos _)
  simpa using h.append hrest

theorem length_le (h : SameOrLonger bs spelling) : bs.length ≤ spelling.length := by
  rcases h with rfl | hlt
  · exact Nat.le_refl _
  · exact Nat.le_of_lt hlt

theorem eq_of_length_eq (h : SameOrLonger bs spelling) (hl : spelling.length = bs.length) : spelling = bs := by
  rcases h with rfl | hlt
  · rfl
  · omega

end Bytes.SameOrLonger

open Bytes (SameOrLonger)

namespace Varint

theorem encode_ne_nil (n : Nat) : encode n ≠ [] := by
  rw [encode]
  split
  · exact List.cons_ne_nil _ _
  · exact List.cons_ne_nil _ _

/-- One group more in front: the lowest seven bits, and the number before as what is left. -/
theorem encode_append_group {b : UInt8} {m : Nat} (hb : ¬ b.toNat < 128) (hm : m ≠ 0) :
    encode (b.toNat - 128 + 128 * m) = b :: encode m := by
  have hlt := b.toNat_lt
  have hmod : (b.toNat - 128 + 128 * m) % 128 + 128 = b.toNat := by omega
  have hdiv : (b.toNat - 128 + 128 * m) / 128 = m := by omega
  rw [encode, if_neg (by omega), hmod, hdiv, UInt8.ofNat_toNat]

/-- By induction on the limit: a group in front of a number that is not 0 is needed, and one in
front of 0 is a byte more than its own seven bits take. -/
theorem decodeGroups_spelling : ∀ {limit n : Nat} {bs rest : Bytes}, decodeGroups limit bs = .ok (n, rest) →
    ∃ spelling, bs = spelling ++ rest ∧ SameOrLonger (encode n) spelling
  | limit + 1, n, b :: bs, rest, h => by
    rw [decodeGroups] at h
    split at h
    · rename_i hb
      cases h
      refine ⟨[b], rfl, .inl ?_⟩
      rw [encode, if_pos hb, UInt8.ofNat_toNat]
    · rename_i hb
      cases hd : decodeGroups limit bs with
      | error e =>
        rw [hd] at h
        cases h
      | ok read =>
        obtain ⟨m, rest'⟩ := read
        rw [hd] at h
        cases h
        obtain ⟨spelling, rfl, hs⟩ := decodeGroups_spelling hd
        refine ⟨b :: spelling, rfl, ?_⟩
        by_cases hm : m = 0
        · subst hm
          have hlt := b.toNat_lt
          have hpos := List.length_pos_iff.mpr (encode_ne_nil 0)
          have hle := hs.length_le
          refine .inr ?_
          rw [encode, if_pos (by omega), List.length_singleton, List.length_cons]
          omega
        · rw [encode_append_group hb hm]
          exact (SameOrLonger.refl [b]).append hs

theorem decode_eq_ok {bits n : Nat} {bs rest : Bytes} (h : decode bits bs = .ok (n, rest)) :
    n < 1 <<< bits ∧ decodeGroups ((bits + 6) / 7) bs = .ok (n, rest) := by
  simp only [decode, bind_eq_ok_iff] at h
  obtain ⟨⟨m, rest'⟩, hd, h⟩ := h
  simp only at h
  split at h
  · rename_i hlt
    cases h
    exact ⟨hlt, hd⟩
  · cases h

end Varint

namespace Codec

variable {α β : Type} {c : Codec α} {e : Codec β}

/-- Whatever is read as a value, what is written for the value is delimited, and is what was
read or is shorter. -/
def WritesShortest (c : Codec α) : Prop :=
  ∀ ⦃bs a rest⦄, c.decode bs = .ok (a, rest) →
    c.Delimits a ∧ ∃ spelling, bs = spelling ++ rest ∧ SameOrLonger (c.encode a) spelling

/-- Numbers that are delimited are below the bound. -/
theorem Delimits.lt {bits n : Nat} (h : (Codec.varint bits).Delimits n) : n < 1 <<< bits :=
  (Varint.decode_eq_ok (h.roundTrips [])).1

namespace WritesShortest

/-- A value that is read by reading another one first, and then what is behind it: both pieces
are what is written for them, or longer. -/
theorem of_bind {f : α × Bytes → Except DecodeError (β × Bytes)} (hc : c.WritesShortest)
    (hd : ∀ bs, e.decode bs = c.decode bs >>= f)
    (hf : ∀ ⦃a bs b rest⦄, c.Delimits a → f (a, bs) = .ok (b, rest) → e.Delimits b ∧
      ∃ behind spelling, e.encode b = c.encode a ++ behind ∧ bs = spelling ++ rest ∧
        SameOrLonger behind spelling) : e.WritesShortest := by
  intro bs b rest h
  rw [hd, bind_eq_ok_iff] at h
  obtain ⟨⟨a, bs'⟩, ha, hb⟩ := h
  obtain ⟨hdelimits, spelling, rfl, hs⟩ := hc ha
  obtain ⟨hdelimits', behind, spelling', he, rfl, hs'⟩ := hf hdelimits hb
  refine ⟨hdelimits', spelling ++ spelling', (List.append_assoc _ _ _).symm, ?_⟩
  rw [he]
  exact hs.append hs'

/-! ### Single values -/

theorem convert {pack : α → β} {unpack : β → α} (hc : c.WritesShortest)
    (hp : ∀ a, c.Delimits a → unpack (pack a) = a) : (c.convert pack unpack).WritesShortest := by
  intro bs b rest h
  cases hd : c.decode bs with
  | error e => simp [Codec.convert, hd, Except.map] at h
  | ok read =>
    obtain ⟨a, rest'⟩ := read
    simp only [Codec.convert, hd, Except.map, Except.ok.injEq, Prod.mk.injEq] at h
    obtain ⟨rfl, rfl⟩ := h
    obtain ⟨hdelimits, spelling, hbs, hs⟩ := hc hd
    have ha := hp a hdelimits
    refine ⟨.convert (by rwa [ha]) (by rw [ha]), spelling, hbs, ?_⟩
    simp only [Codec.convert, ha]
    exact hs

theorem byte : Codec.byte.WritesShortest := by
  intro bs b rest h
  cases bs with
  | nil => cases h
  | cons b' bs =>
    cases h
    exact ⟨.byte _, [b], rfl, .refl _⟩

theorem block32 : Codec.block32.WritesShortest := by
  intro bs a rest h
  simp only [Codec.block32] at h
  split at h
  · cases h
    exact ⟨.block32 _, bs.take 32, (List.take_append_drop 32 bs).symm, .refl _⟩
  · cases h

theorem varint {bits : Nat} (hb : 0 < bits) : (Codec.varint bits).WritesShortest := by
  intro bs n rest h
  obtain ⟨hlt, hd⟩ := Varint.decode_eq_ok h
  exact ⟨.varint hlt hb, Varint.decodeGroups_spelling hd⟩

theorem uint64 : Codec.uint64.WritesShortest :=
  (varint (by decide)).convert fun _ hn => UInt64.toNat_ofNat_of_lt' hn.lt

theorem length : Codec.length.WritesShortest := varint (by decide)

theorem discriminant : Codec.discriminant.WritesShortest := varint (by decide)

/-! ### Several values -/

theorem pair (hc : c.WritesShortest) (he : e.WritesShortest) : (c.pair e).WritesShortest := by
  refine hc.of_bind (fun _ => rfl) fun a bs v rest ha h => ?_
  simp only [bind_eq_ok_iff, pure_eq_ok_iff] at h
  obtain ⟨⟨b, rest'⟩, hb, h⟩ := h
  cases h
  obtain ⟨hdelimits, spelling, hbs, hs⟩ := he hb
  exact ⟨ha.pair hdelimits, e.encode b, spelling, rfl, hbs, hs⟩

theorem bytes : Codec.bytes.WritesShortest := by
  refine length.of_bind (fun _ => rfl) fun n bs v rest hn h => ?_
  simp only at h
  split at h
  · rename_i hle
    cases h
    have hl : (bs.take n).length = n := List.length_take_of_le hle
    refine ⟨.bytes (by rw [hl]; exact hn.lt), bs.take n, bs.take n, ?_,
      (List.take_append_drop n bs).symm, .refl _⟩
    simp only [Codec.bytes, hl]
  · cases h

theorem text : Codec.text.WritesShortest := by
  refine bytes.of_bind (fun _ => rfl) fun utf8 bs s rest hb h => ?_
  simp only at h
  split at h
  · rename_i s' hs
    cases h
    obtain rfl := Text.utf8_of_ofUtf8? hs
    exact ⟨.text_of_bytes hb, [], [], (List.append_nil _).symm, rfl, .refl []⟩
  · cases h

/-- By induction on the number of elements. -/
theorem decodeMany (hc : c.WritesShortest) : ∀ {n : Nat} {bs rest : Bytes} {as : List α},
    Codec.decodeMany c n bs = .ok (as, rest) → as.length = n ∧ (∀ a ∈ as, c.Delimits a) ∧
      ∃ spelling, bs = spelling ++ rest ∧ SameOrLonger (as.flatMap c.encode) spelling
  | 0, bs, rest, as, h => by
    cases h
    exact ⟨rfl, nofun, [], rfl, .refl []⟩
  | n + 1, bs, rest, as, h => by
    simp only [Codec.decodeMany, bind_eq_ok_iff, pure_eq_ok_iff] at h
    obtain ⟨⟨a, bs'⟩, ha, ⟨as', rest'⟩, has, h⟩ := h
    cases h
    obtain ⟨hdelimits, spelling, rfl, hs⟩ := hc ha
    obtain ⟨rfl, hall, spelling', rfl, hs'⟩ := decodeMany hc has
    refine ⟨rfl, List.forall_mem_cons.mpr ⟨hdelimits, hall⟩, spelling ++ spelling',
      (List.append_assoc _ _ _).symm, ?_⟩
    rw [List.flatMap_cons]
    exact hs.append hs'

theorem list (hc : c.WritesShortest) : c.list.WritesShortest := by
  refine length.of_bind (fun _ => rfl) fun n bs as rest hn h => ?_
  obtain ⟨rfl, hall, spelling, hbs, hs⟩ := hc.decodeMany h
  exact ⟨.list hn.lt hall, as.flatMap c.encode, spelling, rfl, hbs, hs⟩

/-! ### Alternatives -/

theorem option (hc : c.WritesShortest) : c.option.WritesShortest := by
  refine byte.of_bind (fun _ => rfl) fun tag bs v rest _ h => ?_
  simp only at h
  split at h
  · rename_i h0
    cases h
    subst h0
    exact ⟨.option_none, [], [], rfl, rfl, .refl []⟩
  · split at h
    · rename_i h1
      simp only [bind_eq_ok_iff, pure_eq_ok_iff] at h
      obtain ⟨⟨a, rest'⟩, ha, h⟩ := h
      cases h
      subst h1
      obtain ⟨hdelimits, spelling, hbs, hs⟩ := hc ha
      exact ⟨.option_some hdelimits, c.encode a, spelling, rfl, hbs, hs⟩
    · cases h

theorem either (hc : c.WritesShortest) (he : e.WritesShortest) : (c.either e).WritesShortest := by
  refine discriminant.of_bind (fun _ => rfl) fun tag bs v rest _ h => ?_
  simp only at h
  split at h
  · rename_i h0
    simp only [bind_eq_ok_iff, pure_eq_ok_iff] at h
    obtain ⟨⟨a, rest'⟩, ha, h⟩ := h
    cases h
    subst h0
    obtain ⟨hdelimits, spelling, hbs, hs⟩ := hc ha
    exact ⟨.either_inl hdelimits, c.encode a, spelling, rfl, hbs, hs⟩
  · split at h
    · rename_i h1
      simp only [bind_eq_ok_iff, pure_eq_ok_iff] at h
      obtain ⟨⟨b, rest'⟩, hb, h⟩ := h
      cases h
      subst h1
      obtain ⟨hdelimits, spelling, hbs, hs⟩ := he hb
      exact ⟨.either_inr hdelimits, e.encode b, spelling, rfl, hbs, hs⟩
    · cases h

/-- A value that is listed once is found where it was read. -/
theorem enumeration [DecidableEq α] {all : List α} (hn : all.Nodup) (hl : all.length < UInt32.size) :
    (Codec.enumeration all).WritesShortest := by
  refine discriminant.of_bind (fun _ => rfl) fun n bs a rest _ h => ?_
  simp only at h
  split at h
  · rename_i a' ha
    cases h
    obtain ⟨hlt, rfl⟩ := List.getElem?_eq_some_iff.mp ha
    have hi : all.idxOf all[n] = n := hn.idxOf_getElem n hlt
    refine ⟨.enumeration (List.getElem_mem hlt) hl, [], [], ?_, rfl, .refl []⟩
    simp only [Codec.enumeration, hi, List.append_nil]
  · cases h

end WritesShortest

/-- A whole message is what is written for the value, or longer, and what is written is read
as the value too. -/
theorem WritesShortest.of_read {bs : Bytes} {a : α} (hc : c.WritesShortest) (h : c.read bs = .ok a) :
    SameOrLonger (c.encode a) bs ∧ c.read (c.encode a) = .ok a := by
  rw [read] at h
  cases hd : c.decode bs with
  | error e =>
    rw [hd] at h
    cases h
  | ok read =>
    rw [hd] at h
    cases h
    obtain ⟨hdelimits, spelling, rfl, hs⟩ := hc hd
    exact ⟨hs.append_right _, read_encode hdelimits.roundTrips⟩

end Codec

/-! ## Responses -/

theorem Status.codec_writesShortest : Status.codec.WritesShortest := .enumeration (by decide) (by decide)

theorem Digest.codec_writesShortest : Digest.codec.WritesShortest :=
  Codec.WritesShortest.block32.convert fun _ _ => rfl

theorem Signature.codec_writesShortest : Signature.codec.WritesShortest :=
  (Codec.WritesShortest.block32.pair .block32).convert fun _ _ => rfl

theorem Snapshot.codec_writesShortest : Snapshot.codec.WritesShortest := by
  refine .convert ?_ fun _ _ => rfl
  refine .pair .uint64 (.pair Digest.codec_writesShortest ?_)
  exact .pair Digest.codec_writesShortest Signature.codec_writesShortest

theorem Promise.codec_writesShortest : Promise.codec.WritesShortest := by
  refine .convert ?_ fun _ _ => rfl
  refine .pair .text (.pair .bytes (.pair Digest.codec_writesShortest ?_))
  exact .pair .uint64 Signature.codec_writesShortest

theorem MappingProof.codec_writesShortest : MappingProof.codec.WritesShortest := by
  refine .convert ?_ fun _ _ => rfl
  exact .pair Snapshot.codec_writesShortest.list (.pair .bytes Promise.codec_writesShortest.option)

theorem Body.codec_writesShortest : Body.codec.WritesShortest := by
  refine (MappingProof.codec_writesShortest.either Snapshot.codec_writesShortest.list).convert fun b _ => ?_
  cases b <;> rfl

theorem Response.codec_writesShortest : Response.codec.WritesShortest :=
  (Status.codec_writesShortest.pair Body.codec_writesShortest.option).convert fun _ _ => rfl

namespace Sample

/-- A response with one snapshot, of which nothing is as it would be written: the status, the
kind of body, the number of snapshots and the epoch each have a group that is not needed, and
there is a byte behind the response. -/
def padded : Bytes :=
  [0x80, 0, 1, 0x81, 0, 0x81, 0, 0x85, 0x80, 0] ++ List.replicate 128 0 ++ [7]

/-- What is read from the padded bytes. -/
def unpadded : Response :=
  .ofHistory [⟨5, Digest.zero, Digest.zero, ⟨Block32.replicate 0, Block32.replicate 0⟩⟩]

theorem ofBytes_padded : Response.ofBytes padded = .ok unpadded := by decide +kernel

end Sample

/-- Of all bytes that are read as a response, those it is written as are the shortest, and the
only ones of their length. They are read as that response too, so that no two messages of that
length are taken for one, and reading, writing and reading again changes nothing. -/
theorem canonical_is_shortest :
    (∀ bs r, Response.ofBytes bs = .ok r →
      r.toBytes.length ≤ bs.length ∧ (bs.length = r.toBytes.length → bs = r.toBytes) ∧
        Response.ofBytes r.toBytes = .ok r) ∧
    ∀ bs bs' r, Response.ofBytes bs = .ok r → Response.ofBytes bs' = .ok r →
      bs.length = r.toBytes.length → bs'.length = r.toBytes.length → bs = bs' := by
  have hspelling (bs : Bytes) (r : Response) (h : Response.ofBytes bs = .ok r) :
      SameOrLonger r.toBytes bs ∧ Response.ofBytes r.toBytes = .ok r := by
    rw [Response.ofBytes] at h
    split at h
    · rename_i r' hread
      cases h
      obtain ⟨hs, hagain⟩ := Response.codec_writesShortest.of_read hread
      exact ⟨hs, by rw [Response.ofBytes, Response.toBytes, hagain]⟩
    · cases h
  refine ⟨fun bs r h => ?_, fun bs bs' r h h' hl hl' => ?_⟩
  · obtain ⟨hs, hagain⟩ := hspelling bs r h
    exact ⟨hs.length_le, hs.eq_of_length_eq, hagain⟩
  · rw [(hspelling bs r h).1.eq_of_length_eq hl, (hspelling bs' r h').1.eq_of_length_eq hl']

theorem canonical_is_shortest_sample :
    Response.ofBytes Sample.padded = .ok Sample.unpadded ∧
    Sample.unpadded.toBytes.length < Sample.padded.length ∧
    Response.ofBytes Sample.unpadded.toBytes = .ok Sample.unpadded ∧
    ∀ bs, Response.ofBytes bs = .ok Sample.unpadded → bs.length = Sample.unpadded.toBytes.length →
      bs = Sample.unpadded.toBytes := by
  obtain ⟨hle, hsame, hagain⟩ := canonical_is_shortest.1 _ _ Sample.ofBytes_padded
  refine ⟨Sample.ofBytes_padded, Nat.lt_of_le_of_ne hle fun hl => ?_, hagain, fun bs h hl => ?_⟩
  · have hne : Sample.padded ≠ Sample.unpadded.toBytes := by decide +kernel
    exact hne (hsame hl.symm)
  · exact canonical_is_shortest.2 bs _ _ h hagain hl rfl

end KeyTransparency
