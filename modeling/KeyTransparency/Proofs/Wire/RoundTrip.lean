import KeyTransparency.Proofs.Basic
import KeyTransparency.Snapshot

/-!
# Reading back what was written

A codec round-trips at a value (`Codec.RoundTrips`) if it reads what it writes for the
value back, and leaves what follows alone. What two values are written as, at which the
codec round-trips, differs where the values do (`RoundTrips.inj`): in particular no two
snapshots have the same bytes (`Snapshot.encode_inj`).

A codec delimits a value (`Codec.Delimits`) if it round-trips there, and tells of every cut
of what it writes that the bytes end too early. Combined codecs delimit what their parts
delimit, because a cut leaves the parts before it whole (`Delimits.of_bind`). Lengths and
numbers of elements are delimited where they can be written, which is below `2 ^ 64`.
-/

namespace KeyTransparency

/-- A piece of two strings after one another ends inside the first, or behind it. -/
theorem prefix_append_cases {p x y : Bytes} (h : p <+: x ++ y) :
    (p <+: x ∧ p ≠ x) ∨ ∃ q, q <+: y ∧ p = x ++ q := by
  obtain ⟨t, ht⟩ := h
  rcases List.append_eq_append_iff.mp ht with ⟨q, rfl, -⟩ | ⟨q, rfl, hq⟩
  · by_cases hne : q = []
    · subst hne
      exact .inr ⟨[], List.nil_prefix, by rw [List.append_nil, List.append_nil]⟩
    · exact .inl ⟨List.prefix_append _ _, fun he => hne (List.self_eq_append_right.mp he)⟩
  · exact .inr ⟨q, ⟨t, hq.symm⟩, rfl⟩

namespace Varint

/-- A number of more than one group: its first byte, and what is left of it. -/
theorem groups_of_not_lt {limit n : Nat} (hn : n < 1 <<< (7 * (limit + 1))) (h : ¬ n < 128) :
    (UInt8.ofNat (n % 128 + 128)).toNat = n % 128 + 128 ∧ n / 128 < 1 <<< (7 * limit) ∧ 0 < limit := by
  refine ⟨UInt8.toNat_ofNat_of_lt' (by rw [UInt8.size]; omega), ?_, ?_⟩
  · rw [Nat.mul_succ, Nat.shiftLeft_add, Nat.shiftLeft_eq _ 7] at hn
    omega
  · exact Nat.pos_of_ne_zero fun h0 => h (by rw [h0] at hn; exact hn)

/-- The groups that are allowed have room for the number. -/
theorem lt_of_lt_bits {bits n : Nat} (h : n < 1 <<< bits) : n < 1 <<< (7 * ((bits + 6) / 7)) := by
  refine Nat.lt_of_lt_of_le h ?_
  rw [Nat.one_shiftLeft, Nat.one_shiftLeft]
  exact Nat.pow_le_pow_right (by decide) (by omega)

/-- By induction on the limit, which allows a group more at each step. -/
theorem decodeGroups_encode (rest : Bytes) : ∀ {limit n : Nat}, n < 1 <<< (7 * limit) → 0 < limit →
    decodeGroups limit (encode n ++ rest) = .ok (n, rest)
  | limit + 1, n, hn, _ => by
    rw [encode]
    split
    · rename_i h
      have hb : (UInt8.ofNat n).toNat = n := UInt8.toNat_ofNat_of_lt' (Nat.lt_trans h (by decide))
      rw [List.singleton_append, decodeGroups, hb, if_pos h]
    · rename_i h
      obtain ⟨hb, hd, hl⟩ := groups_of_not_lt hn h
      rw [List.cons_append, decodeGroups, hb, if_neg (by omega), decodeGroups_encode rest hd hl]
      simp only [Except.map, Except.ok.injEq, Prod.mk.injEq, and_true]
      omega

theorem decode_encode {bits n : Nat} (h : n < 1 <<< bits) (hb : 0 < bits) (rest : Bytes) :
    decode bits (encode n ++ rest) = .ok (n, rest) := by
  rw [decode, decodeGroups_encode rest (lt_of_lt_bits h) (by omega)]
  simp [bind, Except.bind, h]

/-- By induction on the limit: a spelling that is cut short ends with a byte that asks for
one more. -/
theorem decodeGroups_eq_unexpectedEnd : ∀ {limit n : Nat} {p : Bytes}, n < 1 <<< (7 * limit) → 0 < limit →
    p <+: encode n → p ≠ encode n → decodeGroups limit p = .error .unexpectedEnd
  | _ + 1, _, [], _, _, _, _ => rfl
  | limit + 1, n, b :: p, hn, _, hp, hne => by
    rw [encode] at hp hne
    split at hp
    · rename_i h
      rw [if_pos h] at hne
      obtain ⟨rfl, hq⟩ := List.cons_prefix_cons.mp hp
      obtain rfl := List.prefix_nil.mp hq
      exact absurd rfl hne
    · rename_i h
      rw [if_neg h] at hne
      obtain ⟨rfl, hq⟩ := List.cons_prefix_cons.mp hp
      obtain ⟨hb, hd, hl⟩ := groups_of_not_lt hn h
      rw [decodeGroups, hb, if_neg (by omega),
        decodeGroups_eq_unexpectedEnd hd hl hq fun he => hne (by rw [he])]
      rfl

theorem decode_eq_unexpectedEnd {bits n : Nat} {p : Bytes} (h : n < 1 <<< bits) (hb : 0 < bits)
    (hp : p <+: encode n) (hne : p ≠ encode n) : decode bits p = .error .unexpectedEnd := by
  rw [decode, decodeGroups_eq_unexpectedEnd (lt_of_lt_bits h) (by omega) hp hne]
  rfl

end Varint

namespace Codec

variable {α β : Type} {c : Codec α} {e : Codec β}

/-- Reading what is written for `a` gives `a`, and leaves what follows. -/
def RoundTrips (c : Codec α) (a : α) : Prop :=
  ∀ rest, c.decode (c.encode a ++ rest) = .ok (a, rest)

/-- Where values are written apart from what follows, equal bytes are of equal values. -/
theorem RoundTrips.inj {a b : α} {rest rest' : Bytes} (ha : c.RoundTrips a) (hb : c.RoundTrips b)
    (h : c.encode a ++ rest = c.encode b ++ rest') : a = b ∧ rest = rest' := by
  have hr := ha rest
  rw [h, hb rest'] at hr
  cases hr
  exact ⟨rfl, rfl⟩

/-- What is written for `a` is read back, and what follows is left alone. Cut short, it is
not read: the bytes end too early. -/
structure Delimits (c : Codec α) (a : α) : Prop where
  roundTrips : c.RoundTrips a
  cut : ∀ p, p <+: c.encode a → p ≠ c.encode a → c.decode p = .error .unexpectedEnd

namespace Delimits

variable {a : α} {b : β}

/-- A value that is written as another one with bytes behind it, and is read by reading
that one first, is delimited if the bytes behind it are. -/
theorem of_bind {f : α × Bytes → Except DecodeError (β × Bytes)} {rest : Bytes} (ha : c.Delimits a)
    (he : e.encode b = c.encode a ++ rest) (hd : ∀ bs, e.decode bs = c.decode bs >>= f)
    (hread : ∀ t, f (a, rest ++ t) = .ok (b, t))
    (hcut : ∀ q, q <+: rest → q ≠ rest → f (a, q) = .error .unexpectedEnd) : e.Delimits b where
  roundTrips t := by
    rw [hd, he, List.append_assoc, ha.roundTrips]
    exact hread t
  cut p hp hne := by
    rw [he] at hp hne
    rw [hd]
    rcases prefix_append_cases hp with ⟨hpa, hpne⟩ | ⟨q, hq, rfl⟩
    · rw [ha.cut p hpa hpne]
      rfl
    · rw [ha.roundTrips]
      exact hcut q hq fun hqe => hne (by rw [hqe])

/-! ### Single values -/

theorem convert {pack : α → β} {unpack : β → α} (h : c.Delimits (unpack b)) (hp : pack (unpack b) = b) :
    (c.convert pack unpack).Delimits b where
  roundTrips t := by simp only [Codec.convert, h.roundTrips t, Except.map, hp]
  cut p hpb hne := by
    have hc := h.cut p hpb hne
    simp only [Codec.convert, hc, Except.map]

theorem byte (a : UInt8) : Codec.byte.Delimits a where
  roundTrips _ := rfl
  cut p hp hne := by
    cases p with
    | nil => rfl
    | cons b p =>
      obtain ⟨rfl, hq⟩ := List.cons_prefix_cons.mp hp
      obtain rfl := List.prefix_nil.mp hq
      exact absurd rfl hne

theorem block32 (a : Block32) : Codec.block32.Delimits a where
  roundTrips t := by
    have hl := a.length_eq
    simp only [Codec.block32, List.length_append, hl, Nat.le_add_right, dite_true,
      List.take_left' hl, List.drop_left' hl]
  cut p hp hne := by
    have hl : ¬ 32 ≤ p.length := fun hle => hne (hp.eq_of_length_le (a.length_eq ▸ hle))
    simp only [Codec.block32, hl, dite_false]

theorem varint {bits n : Nat} (h : n < 1 <<< bits) (hb : 0 < bits) : (Codec.varint bits).Delimits n where
  roundTrips t := Varint.decode_encode h hb t
  cut _ hp hne := Varint.decode_eq_unexpectedEnd h hb hp hne

theorem uint64 (n : UInt64) : Codec.uint64.Delimits n :=
  (varint n.toNat_lt (by decide)).convert UInt64.ofNat_toNat

theorem length {n : Nat} (h : n < UInt64.size) : Codec.length.Delimits n :=
  varint h (by decide)

theorem discriminant {n : Nat} (h : n < UInt32.size) : Codec.discriminant.Delimits n :=
  varint h (by decide)

/-! ### Several values -/

theorem pair (ha : c.Delimits a) (hb : e.Delimits b) : (c.pair e).Delimits (a, b) := by
  refine ha.of_bind rfl (fun _ => rfl) (fun t => ?_) fun q hq hne => ?_
  · simp only [hb.roundTrips t, bind, Except.bind, pure, Except.pure]
  · simp only [hb.cut q hq hne, bind, Except.bind]

theorem bytes {bs : Bytes} (h : bs.length < UInt64.size) : Codec.bytes.Delimits bs := by
  refine (length h).of_bind rfl (fun _ => rfl) (fun t => ?_) fun q hq hne => ?_
  · simp only [List.length_append, Nat.le_add_right, ↓reduceIte, List.take_left, List.drop_left]
  · have hl : ¬ bs.length ≤ q.length := fun hle => hne (hq.eq_of_length_le hle)
    simp only [hl, ↓reduceIte]

theorem text_of_bytes {s : String} (h : Codec.bytes.Delimits (Text.utf8 s)) : Codec.text.Delimits s := by
  refine h.of_bind (List.append_nil _).symm (fun _ => rfl) (fun t => ?_) fun q hq hne => ?_
  · simp only [Text.ofUtf8?_utf8, List.nil_append]
  · exact absurd (List.prefix_nil.mp hq) hne

theorem text {s : String} (h : (Text.utf8 s).length < UInt64.size) : Codec.text.Delimits s :=
  text_of_bytes (bytes h)

/-- By induction on the elements, each of which is read before those behind it. -/
theorem decodeMany {as : List α} (h : ∀ a ∈ as, c.Delimits a) :
    Delimits ⟨fun as => as.flatMap c.encode, Codec.decodeMany c as.length⟩ as := by
  induction as with
  | nil => exact ⟨fun _ => rfl, fun p hp hne => absurd (List.prefix_nil.mp hp) hne⟩
  | cons a as ih =>
    obtain ⟨ha, has⟩ := List.forall_mem_cons.mp h
    refine ha.of_bind List.flatMap_cons (fun _ => rfl) (fun t => ?_) fun q hq hne => ?_
    · have hr := (ih has).roundTrips t
      simp only at hr
      simp only [hr, bind, Except.bind, pure, Except.pure]
    · have hc := (ih has).cut q hq hne
      simp only at hc
      simp only [hc, bind, Except.bind]

theorem list {as : List α} (hl : as.length < UInt64.size) (h : ∀ a ∈ as, c.Delimits a) : c.list.Delimits as :=
  (length hl).of_bind rfl (fun _ => rfl) (decodeMany h).roundTrips (decodeMany h).cut

theorem mapping [Ord α] [Std.TransOrd α] [Std.LawfulEqOrd α] [DecidableEq α] {m : Std.ExtTreeMap α β}
    (hs : m.size < UInt64.size) (h : ∀ k v, m[k]? = some v → c.Delimits k ∧ e.Delimits v) :
    (Codec.mapping c e).Delimits m := by
  refine convert (list ?_ ?_) (ofList_toList m)
  · rwa [Std.ExtTreeMap.length_toList]
  · rintro ⟨k, v⟩ hm
    obtain ⟨hk, hv⟩ := h k v (Std.ExtTreeMap.mem_toList_iff_getElem?_eq_some.mp hm)
    exact pair hk hv

/-! ### Alternatives -/

theorem option_none : c.option.Delimits none :=
  (byte 0).of_bind (List.append_nil _).symm (fun _ => rfl) (fun _ => rfl) fun _ hq hne =>
    absurd (List.prefix_nil.mp hq) hne

theorem option_some (ha : c.Delimits a) : c.option.Delimits (some a) := by
  have he : c.option.encode (some a) = Codec.byte.encode 1 ++ c.encode a := rfl
  refine (byte 1).of_bind he (fun _ => rfl) (fun t => ?_) fun q hq hne => ?_
  · simp [ha.roundTrips t, bind, Except.bind, pure, Except.pure]
  · simp [ha.cut q hq hne, bind, Except.bind]

theorem either_inl (ha : c.Delimits a) : (c.either e).Delimits (.inl a) := by
  refine (discriminant (n := 0) (by decide)).of_bind rfl (fun _ => rfl) (fun t => ?_) fun q hq hne => ?_
  · simp [ha.roundTrips t, bind, Except.bind, pure, Except.pure]
  · simp [ha.cut q hq hne, bind, Except.bind]

theorem either_inr (hb : e.Delimits b) : (c.either e).Delimits (.inr b) := by
  refine (discriminant (n := 1) (by decide)).of_bind rfl (fun _ => rfl) (fun t => ?_) fun q hq hne => ?_
  · simp [hb.roundTrips t, bind, Except.bind, pure, Except.pure]
  · simp [hb.cut q hq hne, bind, Except.bind]

theorem enumeration [DecidableEq α] {all : List α} (ha : a ∈ all) (hl : all.length < UInt32.size) :
    (Codec.enumeration all).Delimits a := by
  have hi : all.idxOf a < all.length := List.idxOf_lt_length_of_mem ha
  refine (discriminant (Nat.lt_trans hi hl)).of_bind (List.append_nil _).symm (fun _ => rfl)
    (fun t => ?_) fun q hq hne => absurd (List.prefix_nil.mp hq) hne
  simp only [List.getElem?_eq_getElem hi, List.getElem_idxOf hi, List.nil_append]

end Delimits

/-- Reading a whole message ignores what follows the value. -/
theorem RoundTrips.read_append {a : α} (h : c.RoundTrips a) (t : Bytes) : c.read (c.encode a ++ t) = .ok a := by
  rw [read, h t]
  rfl

theorem read_encode {a : α} (h : c.RoundTrips a) : c.read (c.encode a) = .ok a := by
  have h := h.read_append []
  rwa [List.append_nil] at h

theorem Delimits.read_cut {a : α} {p : Bytes} (h : c.Delimits a) (hp : p <+: c.encode a) (hne : p ≠ c.encode a) :
    c.read p = .error .unexpectedEnd := by
  rw [read, h.cut p hp hne]
  rfl

/-- The bytes of a string end where its length says, so that strings of any length are
written apart from what follows. -/
theorem bytes_encode_inj {bs bs' rest rest' : Bytes}
    (h : Codec.bytes.encode bs ++ rest = Codec.bytes.encode bs' ++ rest') : bs = bs' ∧ rest = rest' := by
  -- A number of bits that has room for both lengths.
  have hb : 0 < bs.length + bs'.length + 1 := Nat.succ_pos _
  have hlt {n : Nat} (hn : n ≤ bs.length + bs'.length) : n < 1 <<< (bs.length + bs'.length + 1) := by
    rw [Nat.one_shiftLeft]
    exact Nat.lt_trans (Nat.lt_succ_of_le hn) Nat.lt_two_pow_self
  have hl := Delimits.varint (hlt (Nat.le_add_right bs.length bs'.length)) hb
  have hl' := Delimits.varint (hlt (Nat.le_add_left bs'.length bs.length)) hb
  have h : Varint.encode bs.length ++ (bs ++ rest) = Varint.encode bs'.length ++ (bs' ++ rest') := by
    rw [← List.append_assoc, ← List.append_assoc]
    exact h
  obtain ⟨hlen, hrest⟩ := hl.roundTrips.inj hl'.roundTrips h
  exact List.append_inj hrest hlen

theorem text_encode_inj {s s' : String} {rest rest' : Bytes}
    (h : Codec.text.encode s ++ rest = Codec.text.encode s' ++ rest') : s = s' ∧ rest = rest' := by
  obtain ⟨hs, hrest⟩ := bytes_encode_inj h
  exact ⟨Text.utf8_injective hs, hrest⟩

end Codec

theorem Digest.codec_delimits (d : Digest) : Digest.codec.Delimits d :=
  .convert (.block32 d.block) rfl

theorem Signature.codec_delimits (sig : Signature) : Signature.codec.Delimits sig := by
  refine .convert ?_ rfl
  exact .pair (.block32 sig.r) (.block32 sig.s)

namespace Snapshot

theorem codec_delimits (s : Snapshot) : codec.Delimits s := by
  refine .convert ?_ rfl
  refine .pair (.uint64 s.epoch) (.pair (Digest.codec_delimits s.root) ?_)
  exact .pair (Digest.codec_delimits s.previous) (Signature.codec_delimits s.signature)

/-- Different snapshots have different bytes. -/
theorem encode_inj {s t : Snapshot} (h : s.encode = t.encode) : s = t :=
  (s.codec_delimits.roundTrips.inj t.codec_delimits.roundTrips (congrArg (· ++ []) h)).1

end Snapshot

end KeyTransparency
