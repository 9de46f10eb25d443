import KeyTransparency.Text.Blank
import KeyTransparency.Text.Hex

/-!
# Digits between blanks

A text has one core (`Text.HasCore`): it stands between blanks, and has none at either end. What
is hexadecimal is decided on the bytes of the core. They are its characters as long as these are
ASCII (`Text.utf8_ofAscii`), so a text is made of digits (`Hex.IsDigits`) exactly if its bytes
are digits: no byte of a longer character is one.

* `Text.hasCore_iff`: the core is what trimming leaves;
* `Hex.decode_eq_ok_iff`: the bytes read are those that the digits spell;
* `Hex.decode_eq_oddLength_iff`, `Hex.decode_eq_invalidCharacter_iff`: what is told of all other
  bytes;
* `Hex.encode_eq_toLower`: what was read is written as the text in lower case.
-/

namespace KeyTransparency

namespace Text

/-- The core stands in the text between blanks, and neither starts nor ends with one. -/
structure HasCore (text core : String) : Prop where
  between : ∃ before after : List Char, text.toList = before ++ core.toList ++ after ∧
    (∀ c ∈ before, isBlank c = true) ∧ ∀ c ∈ after, isBlank c = true
  starts : ∀ c, core.toList.head? = some c → isBlank c = false
  ends : ∀ c, core.toList.getLast? = some c → isBlank c = false

variable {text core : String}

theorem dropWhile_isBlank_eq_self {cs : List Char} (h : ∀ c, cs.head? = some c → isBlank c = false) :
    cs.dropWhile isBlank = cs := by
  cases cs with
  | nil => rfl
  | cons c cs => rw [List.dropWhile_cons_of_neg (by rw [h c rfl]; exact Bool.false_ne_true)]

theorem isBlank_of_head?_dropWhile {cs : List Char} {c : Char}
    (h : (cs.dropWhile isBlank).head? = some c) : isBlank c = false := by
  have hnot := List.head?_dropWhile_not isBlank cs
  rwa [h] at hnot

/-- Blanks are dropped in front of the core and, read backwards, behind it. A core without
characters is dropped with the blanks in front of it. -/
theorem HasCore.eq_trimBlank (h : HasCore text core) : core = trimBlank text := by
  obtain ⟨before, after, htext, hbefore, hafter⟩ := h.between
  apply String.ext
  rw [trimBlank_toList, trimChars, htext, List.append_assoc, List.dropWhile_append_of_pos hbefore]
  cases hcore : core.toList with
  | nil =>
    rw [List.nil_append, ← List.append_nil after, List.dropWhile_append_of_pos hafter]
    rfl
  | cons c cs =>
    have hstart : (c :: cs ++ after).dropWhile isBlank = c :: cs ++ after :=
      dropWhile_isBlank_eq_self fun d hd => h.starts d (by rw [hcore]; exact hd)
    have hend : (c :: cs).reverse.dropWhile isBlank = (c :: cs).reverse :=
      dropWhile_isBlank_eq_self fun d hd => h.ends d (by rw [hcore, ← List.head?_reverse]; exact hd)
    rw [hstart, List.reverse_append,
      List.dropWhile_append_of_pos fun d hd => hafter d (List.mem_reverse.mp hd), hend,
      List.reverse_reverse]

theorem hasCore_trimBlank (text : String) : HasCore text (trimBlank text) := by
  -- What is left behind the leading blanks is the core and the trailing blanks.
  generalize hkept : text.toList.dropWhile isBlank = kept
  have hcore : (trimBlank text).toList = (kept.reverse.dropWhile isBlank).reverse := by
    rw [trimBlank_toList, trimChars, hkept]
  have hsplit : kept = (trimBlank text).toList ++ (kept.reverse.takeWhile isBlank).reverse := by
    rw [hcore, ← List.reverse_append, List.takeWhile_append_dropWhile, List.reverse_reverse]
  refine ⟨⟨text.toList.takeWhile isBlank, (kept.reverse.takeWhile isBlank).reverse, ?_, ?_, ?_⟩, ?_, ?_⟩
  · rw [List.append_assoc, ← hsplit, ← hkept, List.takeWhile_append_dropWhile]
  · exact List.all_eq_true.mp List.all_takeWhile
  · intro c hc
    exact List.all_eq_true.mp List.all_takeWhile c (List.mem_reverse.mp hc)
  · intro c hc
    have hhead : (text.toList.dropWhile isBlank).head? = some c := by
      rw [hkept, hsplit, List.head?_append, hc]
      rfl
    exact isBlank_of_head?_dropWhile hhead
  · intro c hc
    rw [hcore, List.getLast?_reverse] at hc
    exact isBlank_of_head?_dropWhile hc

theorem HasCore.of_between {before after : List Char}
    (htext : text.toList = before ++ core.toList ++ after)
    (hbefore : ∀ c ∈ before, isBlank c = true) (hafter : ∀ c ∈ after, isBlank c = true)
    (hcore : ∀ c ∈ core.toList, isBlank c = false) : HasCore text core where
  between := ⟨before, after, htext, hbefore, hafter⟩
  starts c hc := hcore c (List.mem_of_head? hc)
  ends c hc := hcore c (List.mem_of_getLast? hc)

/-- A text without blanks is its own core. -/
theorem HasCore.self (h : ∀ c ∈ text.toList, isBlank c = false) : HasCore text text :=
  have hbetween : text.toList = [] ++ text.toList ++ [] := by rw [List.nil_append, List.append_nil]
  .of_between hbetween nofun nofun h

/-- The core of a text is what trimming leaves, and nothing else is. -/
theorem hasCore_iff : HasCore text core ↔ core = trimBlank text :=
  ⟨HasCore.eq_trimBlank, fun h => h ▸ hasCore_trimBlank text⟩

theorem toList_toLower (s : String) : s.toLower.toList = s.toList.map Char.toLower :=
  String.toList_map

/-! ## ASCII -/

/-- The text whose characters have the bytes as their codes. -/
def ofAscii (bs : Bytes) : String := String.ofList (bs.map fun b => Char.ofNat b.toNat)

theorem utf8EncodeChar_ofNat_of_lt :
    ∀ n < 128, String.utf8EncodeChar (Char.ofNat n) = [UInt8.ofNat n] := by decide

theorem utf8_ofAscii {bs : Bytes} (h : ∀ b ∈ bs, b.toNat < 128) : utf8 (ofAscii bs) = bs := by
  rw [utf8, ofAscii, String.toByteArray_ofList, List.utf8Encode, List.data_toByteArray]
  induction bs with
  | nil => rfl
  | cons b bs ih =>
    have ih := ih fun c hc => h c (List.mem_cons_of_mem b hc)
    rw [List.map_cons, List.flatMap_cons, utf8EncodeChar_ofNat_of_lt _ (h b List.mem_cons_self),
      UInt8.ofNat_toNat]
    exact congrArg (b :: ·) ih

/-- Bytes of ASCII are characters each. -/
theorem eq_ofAscii_utf8 {s : String} (h : ∀ b ∈ utf8 s, b.toNat < 128) : s = ofAscii (utf8 s) :=
  utf8_injective (utf8_ofAscii h).symm

/-- Characters of ASCII are bytes each. -/
theorem eq_ofAscii_of_toList {s : String} (h : ∀ c ∈ s.toList, c.toNat < 128) :
    s = ofAscii (utf8 s) := by
  have hcode : ∀ c ∈ s.toList, (UInt8.ofNat c.toNat).toNat = c.toNat := by
    intro c hc
    have hlt := h c hc
    rw [UInt8.toNat_ofNat']
    omega
  have hs : ofAscii (s.toList.map fun c => UInt8.ofNat c.toNat) = s := by
    rw [ofAscii, List.map_map, List.map_congr_left (g := id), List.map_id, String.ofList_toList]
    intro c hc
    rw [Function.comp_apply, hcode c hc, Char.ofNat_toNat, id]
  have hbytes : utf8 (ofAscii (s.toList.map fun c => UInt8.ofNat c.toNat)) =
      s.toList.map fun c => UInt8.ofNat c.toNat := by
    refine utf8_ofAscii fun b hb => ?_
    obtain ⟨c, hc, rfl⟩ := List.mem_map.mp hb
    rw [hcode c hc]
    exact h c hc
  rw [hs] at hbytes
  rw [hbytes, hs]

end Text

namespace Hex

open Text (utf8 ofAscii)

/-- The text is made of `n` digits, each of either case. -/
def IsDigits (n : Nat) (s : String) : Prop := s.length = n ∧ ∀ c ∈ s.toList, c.isHexDigit = true

/-- The byte at the position is no digit, and those in front of it are. -/
structure FirstStray (bs : Bytes) (b : UInt8) (position : Nat) : Prop where
  found : bs[position]? = some b
  stray : (Char.ofNat b.toNat).isHexDigit = false
  digits : ∀ (i : Nat) (c : UInt8), i < position → bs[i]? = some c →
    (Char.ofNat c.toNat).isHexDigit = true

variable {s : String} {digits bs : Bytes} {b c : UInt8} {n m i j : Nat}

/-! ## Digits -/

theorem isHexDigit_iff (c : Char) : c.isHexDigit = true ↔
    48 ≤ c.toNat ∧ c.toNat ≤ 57 ∨ 97 ≤ c.toNat ∧ c.toNat ≤ 102 ∨ 65 ≤ c.toNat ∧ c.toNat ≤ 70 := by
  simp only [Char.isHexDigit, Char.isDigit, Bool.or_eq_true, Bool.and_eq_true, decide_eq_true_eq,
    ge_iff_le, UInt32.le_iff_toNat_le, or_assoc]
  exact Iff.rfl

theorem toNat_lt_of_isHexDigit {c : Char} (h : c.isHexDigit = true) : c.toNat < 128 := by
  rw [isHexDigit_iff] at h
  omega

theorem isBlank_of_isHexDigit {c : Char} (h : c.isHexDigit = true) : Text.isBlank c = false := by
  rw [isHexDigit_iff] at h
  simp only [Text.isBlank, Text.blankRanges, List.any_cons, List.any_nil, Bool.or_false,
    Bool.or_eq_false_iff, Bool.and_eq_false_iff, decide_eq_false_iff_not]
  omega

theorem toNat_ofNat (b : UInt8) : (Char.ofNat b.toNat).toNat = b.toNat := by
  have hb := b.toNat_lt
  rw [Char.ofNat, dif_pos (.inl (by omega))]
  rfl

theorem value?_eq_some_iff {v : Nat} : value? b = some v ↔
    48 ≤ b.toNat ∧ b.toNat ≤ 57 ∧ v = b.toNat - 48 ∨ 97 ≤ b.toNat ∧ b.toNat ≤ 102 ∧ v = b.toNat - 87 ∨
      65 ≤ b.toNat ∧ b.toNat ≤ 70 ∧ v = b.toNat - 55 := by
  simp only [value?]
  split
  · rw [Option.some.injEq]
    omega
  · split
    · rw [Option.some.injEq]
      omega
    · split
      · rw [Option.some.injEq]
        omega
      · simp only [reduceCtorEq, false_iff]
        omega

theorem lt_of_value? {v : Nat} (h : value? b = some v) : v < 16 := by
  rw [value?_eq_some_iff] at h
  omega

/-- The bytes with a value are the codes of the digits. -/
theorem isHexDigit_ofNat_iff : (Char.ofNat b.toNat).isHexDigit = true ↔ ∃ v, value? b = some v := by
  simp only [isHexDigit_iff, toNat_ofNat, value?_eq_some_iff, exists_or, exists_and_left,
    exists_eq, and_true]

theorem isHexDigit_of_value? {v : Nat} (h : value? b = some v) :
    (Char.ofNat b.toNat).isHexDigit = true :=
  isHexDigit_ofNat_iff.mpr ⟨v, h⟩

theorem not_isHexDigit_of_value? (h : value? b = none) : (Char.ofNat b.toNat).isHexDigit = false := by
  rw [Bool.eq_false_iff, ne_eq, isHexDigit_ofNat_iff, h]
  exact nofun

theorem toLower_ofNat_of_lt : ∀ n < 128, ∀ v ∈ value? (UInt8.ofNat n),
    (Char.ofNat n).toLower = Char.ofNat (digit v).toNat := by decide

theorem toLower_of_value? {v : Nat} (h : value? b = some v) :
    (Char.ofNat b.toNat).toLower = Char.ofNat (digit v).toNat := by
  have hlt := toNat_lt_of_isHexDigit (isHexDigit_of_value? h)
  rw [toNat_ofNat] at hlt
  exact toLower_ofNat_of_lt _ hlt v (by rw [UInt8.ofNat_toNat]; exact h)

theorem isDigits_ofAscii : IsDigits n (ofAscii bs) ↔
    bs.length = n ∧ ∀ b ∈ bs, (Char.ofNat b.toNat).isHexDigit = true := by
  rw [IsDigits, ofAscii, String.length_ofList, String.toList_ofList, List.length_map,
    List.forall_mem_map]

/-- A text is made of digits if its bytes are, one by one. -/
theorem isDigits_iff : IsDigits n s ↔
    (utf8 s).length = n ∧ ∀ b ∈ utf8 s, (Char.ofNat b.toNat).isHexDigit = true := by
  constructor
  · intro h
    rw [Text.eq_ofAscii_of_toList fun c hc => toNat_lt_of_isHexDigit (h.2 c hc)] at h
    exact isDigits_ofAscii.mp h
  · intro h
    have hascii : ∀ b ∈ utf8 s, b.toNat < 128 := by
      intro b hb
      rw [← toNat_ofNat b]
      exact toNat_lt_of_isHexDigit (h.2 b hb)
    rw [Text.eq_ofAscii_utf8 hascii]
    exact isDigits_ofAscii.mpr h

/-! ## Reading -/

namespace FirstStray

theorem head (h : (Char.ofNat b.toNat).isHexDigit = false) : FirstStray (b :: bs) b 0 where
  found := rfl
  stray := h
  digits i _ hi := absurd hi (Nat.not_lt_zero i)

theorem cons (hc : (Char.ofNat c.toNat).isHexDigit = true) (h : FirstStray bs b i) :
    FirstStray (c :: bs) b (i + 1) where
  found := h.found
  stray := h.stray
  digits j d hj hd := by
    cases j with
    | zero =>
      cases hd
      exact hc
    | succ j => exact h.digits j d (Nat.lt_of_succ_lt_succ hj) hd

theorem not_digits (h : FirstStray bs b i) : ¬ ∀ c ∈ bs, (Char.ofNat c.toNat).isHexDigit = true := by
  intro hall
  have hb := hall b (List.mem_of_getElem? h.found)
  rw [h.stray] at hb
  cases hb

theorem not_lt (h : FirstStray bs b i) (h' : FirstStray bs c j) : ¬ i < j := by
  intro hlt
  have hb := h'.digits i b hlt h.found
  rw [h.stray] at hb
  cases hb

/-- Only one byte is the first. -/
theorem unique (h : FirstStray bs b i) (h' : FirstStray bs c j) : b = c ∧ i = j := by
  have hij : i = j := Nat.le_antisymm (Nat.not_lt.mp (h'.not_lt h)) (Nat.not_lt.mp (h.not_lt h'))
  subst hij
  exact ⟨Option.some.inj (h.found.symm.trans h'.found), rfl⟩

end FirstStray

/-- By recursion on the pairs: all of them are digits, or there is a first byte that is none. -/
theorem decodePairs_cases : ∀ (position : Nat) {digits : Bytes}, digits.length % 2 = 0 →
    (∃ bs, Spells digits bs) ∨
    ∃ b i, FirstStray digits b i ∧
      decodePairs position digits = .error (.invalidCharacter b (position + i))
  | _, [], _ => .inl ⟨[], .nil⟩
  | position, high :: low :: digits, heven => by
    rw [List.length_cons, List.length_cons] at heven
    have hrest := decodePairs_cases (position + 2) (show digits.length % 2 = 0 by omega)
    rw [decodePairs]
    cases hhigh : value? high with
    | none => exact .inr ⟨high, 0, .head (not_isHexDigit_of_value? hhigh), rfl⟩
    | some h =>
      have hfirst := isHexDigit_of_value? hhigh
      cases hlow : value? low with
      | none => exact .inr ⟨low, 1, .cons hfirst (.head (not_isHexDigit_of_value? hlow)), rfl⟩
      | some l =>
        rcases hrest with ⟨bs, hspells⟩ | ⟨b, i, hstray, herror⟩
        · exact .inl ⟨_, .cons hhigh hlow hspells⟩
        · refine .inr ⟨b, i + 2, .cons hfirst (.cons (isHexDigit_of_value? hlow) hstray), ?_⟩
          simp only [herror, show position + 2 + i = position + (i + 2) by omega]
          rfl

namespace Spells

variable (h : Spells digits bs)

include h

theorem isHexDigit : ∀ b ∈ digits, (Char.ofNat b.toNat).isHexDigit = true := by
  induction h with
  | nil => exact nofun
  | cons hhigh hlow _ ih =>
    exact List.forall_mem_cons.mpr ⟨isHexDigit_of_value? hhigh,
      List.forall_mem_cons.mpr ⟨isHexDigit_of_value? hlow, ih⟩⟩

/-- Digits in lower case are those that are written. -/
theorem map_toLower : digits.map (fun b => (Char.ofNat b.toNat).toLower) =
    (encodeBytes bs).map fun b => Char.ofNat b.toNat := by
  induction h with
  | nil => rfl
  | @cons high low h l digits bs hhigh hlow _ ih =>
    have hh := lt_of_value? hhigh
    have hl := lt_of_value? hlow
    have hv : (UInt8.ofNat (16 * h + l)).toNat = 16 * h + l := by
      rw [UInt8.toNat_ofNat']
      omega
    rw [encodeBytes_cons, hv, show (16 * h + l) / 16 = h by omega,
      show (16 * h + l) % 16 = l by omega]
    simp only [List.map_cons, toLower_of_value? hhigh, toLower_of_value? hlow, ih]

end Spells

theorem decode_cases (digits : Bytes) :
    (digits.length % 2 = 1 ∧ decode digits = .error .oddLength) ∨
    (∃ b i, digits.length % 2 = 0 ∧ FirstStray digits b i ∧
      decode digits = .error (.invalidCharacter b i)) ∨
    ∃ bs, Spells digits bs ∧ decode digits = .ok bs := by
  rw [decode]
  split
  · rename_i hodd
    exact .inl ⟨hodd, rfl⟩
  · rename_i hodd
    have heven : digits.length % 2 = 0 := by omega
    rcases decodePairs_cases 0 heven with ⟨bs, hspells⟩ | ⟨b, i, hstray, herror⟩
    · exact .inr (.inr ⟨bs, hspells, hspells.decodePairs_eq 0⟩)
    · rw [Nat.zero_add] at herror
      exact .inr (.inl ⟨b, i, heven, hstray, herror⟩)

theorem decode_eq_ok_iff : decode digits = .ok bs ↔ Spells digits bs := by
  constructor
  · intro h
    rcases decode_cases digits with ⟨-, hd⟩ | ⟨b, i, -, -, hd⟩ | ⟨read, hspells, hd⟩
    · cases h.symm.trans hd
    · cases h.symm.trans hd
    · cases h.symm.trans hd
      exact hspells
  · exact Spells.decode_eq

theorem decode_eq_oddLength_iff : decode digits = .error .oddLength ↔ digits.length % 2 = 1 := by
  constructor
  · intro h
    rcases decode_cases digits with ⟨hodd, -⟩ | ⟨b, i, -, -, hd⟩ | ⟨bs, -, hd⟩
    · exact hodd
    · cases h.symm.trans hd
    · cases h.symm.trans hd
  · intro h
    rw [decode, if_pos h]

/-- A stray byte is told if the number of bytes is even, and it is the first one that is told. -/
theorem decode_eq_invalidCharacter_iff : decode digits = .error (.invalidCharacter b i) ↔
    digits.length % 2 = 0 ∧ FirstStray digits b i := by
  constructor
  · intro h
    rcases decode_cases digits with ⟨-, hd⟩ | ⟨c, j, heven, hstray, hd⟩ | ⟨bs, -, hd⟩
    · cases h.symm.trans hd
    · cases h.symm.trans hd
      exact ⟨heven, hstray⟩
    · cases h.symm.trans hd
  · rintro ⟨heven, hstray⟩
    rcases decode_cases digits with ⟨hodd, -⟩ | ⟨c, j, -, hstray', hd⟩ | ⟨bs, hspells, -⟩
    · omega
    · obtain ⟨rfl, rfl⟩ := hstray.unique hstray'
      exact hd
    · exact absurd hspells.isHexDigit hstray.not_digits

/-! ## Reading text -/

/-- Bytes are read from a text exactly if it is made of two digits for each of them. -/
theorem exists_decode_utf8_iff :
    (∃ bs, decode (utf8 s) = .ok bs ∧ bs.length = m) ↔ IsDigits (2 * m) s := by
  rw [isDigits_iff]
  constructor
  · rintro ⟨bs, hbs, rfl⟩
    have hspells := decode_eq_ok_iff.mp hbs
    exact ⟨hspells.length_eq, hspells.isHexDigit⟩
  · rintro ⟨hlength, hdigits⟩
    rcases decode_cases (utf8 s) with ⟨hodd, -⟩ | ⟨b, i, -, hstray, -⟩ | ⟨bs, hspells, hd⟩
    · omega
    · exact absurd hdigits hstray.not_digits
    · have hbs := hspells.length_eq
      exact ⟨bs, hd, by omega⟩

/-- What was read is written as the text in lower case. -/
theorem encode_eq_toLower (h : decode (utf8 s) = .ok bs) : encode bs = s.toLower := by
  have hdigits := exists_decode_utf8_iff.mp ⟨bs, h, rfl⟩
  have hs : s = ofAscii (utf8 s) :=
    Text.eq_ofAscii_of_toList fun c hc => toNat_lt_of_isHexDigit (hdigits.2 c hc)
  have hspells := decode_eq_ok_iff.mp h
  generalize utf8 s = digits at hs hspells
  subst hs
  apply String.ext
  rw [encode, String.toList_ofList, ← hspells.map_toLower, Text.toList_toLower, ofAscii,
    String.toList_ofList, List.map_map]
  rfl

theorem utf8_encode (bs : Bytes) : utf8 (encode bs) = encodeBytes bs := by
  refine Text.utf8_ofAscii fun b hb => ?_
  rw [← toNat_ofNat b]
  exact toNat_lt_of_isHexDigit ((spells_encodeBytes bs).isHexDigit b hb)

theorem IsDigits.isBlank_eq_false (h : IsDigits n s) : ∀ c ∈ s.toList, Text.isBlank c = false :=
  fun c hc => isBlank_of_isHexDigit (h.2 c hc)

theorem isDigits_encode (bs : Bytes) : IsDigits (2 * bs.length) (encode bs) :=
  isDigits_ofAscii.mpr ⟨(spells_encodeBytes bs).length_eq, (spells_encodeBytes bs).isHexDigit⟩

/-- What is written has no blanks around it. -/
theorem trimBlank_encode (bs : Bytes) : Text.trimBlank (encode bs) = encode bs :=
  (Text.HasCore.self (isDigits_encode bs).isBlank_eq_false).eq_trimBlank.symm

end Hex

end KeyTransparency
