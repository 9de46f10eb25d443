import KeyTransparency.Auditor.Program
import KeyTransparency.Proofs.Basic
import KeyTransparency.Proofs.Text.Hex

/-!
# Texts that name identities and keys

Digests, identities of directories and public keys are blocks of 32 bytes, and are named by the
digits of their bytes. Such texts have two readers, one of blocks and one of the keys on the
command line. Both decode the core of the text and measure what they get, so they take the same
texts and get the same bytes from them (`Auditor.parseKey_eq_ok_iff`).

* `identities_read_exactly`: which texts are taken, what they name, and what the others are
  refused for.
-/

namespace KeyTransparency

open Text (utf8 trimBlank)

namespace Block32

variable {text : String} {a : Block32} {m : Nat} {cause : Hex.Error}

/-- The digits are decoded first, and what they spell is measured then. -/
theorem parse_cases (text : String) :
    (∃ cause, Hex.decode (utf8 (trimBlank text)) = .error cause ∧
      parse text = .error (.invalidHex cause)) ∨
    (∃ a : Block32, Hex.decode (utf8 (trimBlank text)) = .ok a.bytes ∧ parse text = .ok a) ∨
    ∃ bs, Hex.decode (utf8 (trimBlank text)) = .ok bs ∧ bs.length ≠ 32 ∧
      parse text = .error (.wrongLength bs.length) := by
  rw [parse]
  cases Hex.decode (utf8 (trimBlank text)) with
  | error cause => exact .inl ⟨cause, rfl, rfl⟩
  | ok bs =>
    by_cases hlength : bs.length = 32
    · exact .inr (.inl ⟨⟨bs, hlength⟩, rfl, by simp only [ofBytes?, dif_pos hlength]⟩)
    · exact .inr (.inr ⟨bs, rfl, hlength, by simp only [ofBytes?, dif_neg hlength]⟩)

theorem parse_eq_ok_iff : parse text = .ok a ↔ Hex.decode (utf8 (trimBlank text)) = .ok a.bytes := by
  rcases parse_cases text with ⟨cause, hd, hp⟩ | ⟨b, hd, hp⟩ | ⟨bs, hd, hlength, hp⟩
  · simp only [hd, hp, reduceCtorEq]
  · simp only [hd, hp, Except.ok.injEq, Block32.ext_iff]
  · rw [hd, hp, Except.ok.injEq]
    refine ⟨nofun, fun h => absurd a.length_eq ?_⟩
    rwa [← h]

theorem parse_eq_invalidHex_iff : parse text = .error (.invalidHex cause) ↔
    Hex.decode (utf8 (trimBlank text)) = .error cause := by
  rcases parse_cases text with ⟨cause', hd, hp⟩ | ⟨b, hd, hp⟩ | ⟨bs, hd, -, hp⟩
  · simp only [hd, hp, Except.error.injEq, ParseError.invalidHex.injEq]
  · simp only [hd, hp, reduceCtorEq]
  · simp only [hd, hp, Except.error.injEq, reduceCtorEq]

theorem parse_eq_wrongLength_iff : parse text = .error (.wrongLength m) ↔
    (∃ bs, Hex.decode (utf8 (trimBlank text)) = .ok bs ∧ bs.length = m) ∧ m ≠ 32 := by
  rcases parse_cases text with ⟨cause, hd, hp⟩ | ⟨b, hd, hp⟩ | ⟨bs, hd, hlength, hp⟩
  · simp only [hd, hp, Except.error.injEq, reduceCtorEq, false_and, exists_false]
  · simp only [hd, hp, Except.ok.injEq, reduceCtorEq, exists_eq_left', false_iff, not_and,
      Decidable.not_not]
    exact fun h => h.symm.trans b.length_eq
  · simp only [hd, hp, Except.error.injEq, ParseError.wrongLength.injEq, Except.ok.injEq,
      exists_eq_left', iff_self_and]
    exact fun h => h ▸ hlength

/-- What a block is shown as names it. -/
theorem parse_hex (a : Block32) : parse a.hex = .ok a := by
  rw [parse_eq_ok_iff, hex, Hex.trimBlank_encode, Hex.utf8_encode, Hex.decode_encodeBytes]

end Block32

/-- The two readers take the same texts and read the same bytes. -/
theorem Auditor.parseKey_eq_ok_iff {text : String} {key : PublicKey} :
    parseKey text = .ok key ↔ Block32.parse text = .ok key.block := by
  rw [parseKey, Block32.parse]
  cases Hex.decode (utf8 (trimBlank text)) with
  | error cause => simp only [reduceCtorEq]
  | ok bs =>
    cases hb : Block32.ofBytes? bs with
    | none => simp only [hb, reduceCtorEq]
    | some b =>
      cases key
      simp only [hb, Except.ok.injEq, PublicKey.mk.injEq]

/-- What a reader makes of a text with the given core, if `hex` shows the values it reads. -/
structure ReadsDigits {α : Type} (parse : String → Except ParseError α) (hex : α → String)
    (text core : String) : Prop where
  ok_iff : (∃ a, parse text = .ok a) ↔ Hex.IsDigits 64 core
  hex_eq : ∀ a, parse text = .ok a → hex a = core.toLower
  wrongLength_iff : ∀ m, parse text = .error (.wrongLength m) ↔ Hex.IsDigits (2 * m) core ∧ m ≠ 32
  invalidHex_iff : (∃ cause, parse text = .error (.invalidHex cause)) ↔
    ¬ ∃ m, Hex.IsDigits (2 * m) core
  oddLength_iff : parse text = .error (.invalidHex .oddLength) ↔ (utf8 core).length % 2 = 1
  invalidCharacter_iff : ∀ b i, parse text = .error (.invalidHex (.invalidCharacter b i)) ↔
    (utf8 core).length % 2 = 0 ∧ Hex.FirstStray (utf8 core) b i

namespace ReadsDigits

theorem block32 (text : String) : ReadsDigits Block32.parse Block32.hex text (trimBlank text) where
  ok_iff := by
    rw [← Hex.exists_decode_utf8_iff (m := 32)]
    constructor
    · rintro ⟨a, h⟩
      exact ⟨a.bytes, Block32.parse_eq_ok_iff.mp h, a.length_eq⟩
    · rintro ⟨bs, h, hlength⟩
      exact ⟨⟨bs, hlength⟩, Block32.parse_eq_ok_iff.mpr h⟩
  hex_eq a h := Hex.encode_eq_toLower (Block32.parse_eq_ok_iff.mp h)
  wrongLength_iff m := by rw [Block32.parse_eq_wrongLength_iff, Hex.exists_decode_utf8_iff]
  invalidHex_iff := by
    simp only [Block32.parse_eq_invalidHex_iff, ← Hex.exists_decode_utf8_iff]
    cases Hex.decode (utf8 (trimBlank text)) with
    | error cause => simp
    | ok bs => simp
  oddLength_iff := by rw [Block32.parse_eq_invalidHex_iff, Hex.decode_eq_oddLength_iff]
  invalidCharacter_iff b i := by
    rw [Block32.parse_eq_invalidHex_iff, Hex.decode_eq_invalidCharacter_iff]

/-- What is read may be put into a type of its own. -/
theorem convert {α : Type} {f : Block32 → α} {g : α → Block32} (hgf : ∀ a, g (f a) = a) (text : String) :
    ReadsDigits (fun text => (Block32.parse text).map f) (fun a => (g a).hex) text (trimBlank text) where
  ok_iff := by
    rw [← (block32 text).ok_iff]
    simp only [map_eq_ok_iff]
    exact ⟨fun ⟨_, a, h, _⟩ => ⟨a, h⟩, fun ⟨a, h⟩ => ⟨f a, a, h, rfl⟩⟩
  hex_eq b h := by
    obtain ⟨a, ha, rfl⟩ := map_eq_ok_iff.mp h
    rw [hgf]
    exact (block32 text).hex_eq a ha
  wrongLength_iff m := by rw [map_eq_error_iff, (block32 text).wrongLength_iff]
  invalidHex_iff := by simp only [map_eq_error_iff, (block32 text).invalidHex_iff]
  oddLength_iff := by rw [map_eq_error_iff, (block32 text).oddLength_iff]
  invalidCharacter_iff b i := by rw [map_eq_error_iff, (block32 text).invalidCharacter_iff]

theorem digest (text : String) : ReadsDigits Digest.parse Digest.hex text (trimBlank text) :=
  convert (fun _ => rfl) text

theorem directoryId (text : String) :
    ReadsDigits DirectoryId.parse DirectoryId.hex text (trimBlank text) :=
  convert (fun _ => rfl) text

end ReadsDigits

theorem Digest.parse_eq_ok_iff {text : String} {d : Digest} :
    Digest.parse text = .ok d ↔ Block32.parse text = .ok d.block := by
  rw [Digest.parse, map_eq_ok_iff]
  exact ⟨fun ⟨_, h, hd⟩ => hd ▸ h, fun h => ⟨_, h, rfl⟩⟩

theorem DirectoryId.parse_eq_ok_iff {text : String} {id : DirectoryId} :
    DirectoryId.parse text = .ok id ↔ Block32.parse text = .ok id.block := by
  rw [DirectoryId.parse, map_eq_ok_iff]
  exact ⟨fun ⟨_, h, hid⟩ => hid ▸ h, fun h => ⟨_, h, rfl⟩⟩

/-- Every text has one core. If it is 64 digits of either case, a digest and an identity of a
directory are read, and shown as the core in lower case. If it is any other number of pairs of
digits, the number of pairs is told. In all other cases it is told that the core is not
hexadecimal: that it has an odd number of bytes or, if the number is even, which of them is the
first that is no digit. What digests and identities are shown as reads back, and a public key is
read from the same texts, with the same bytes. -/
theorem identities_read_exactly (text : String) :
    ∃ core, (∀ s, Text.HasCore text s ↔ s = core) ∧
      ReadsDigits Digest.parse Digest.hex text core ∧
      ReadsDigits DirectoryId.parse DirectoryId.hex text core ∧
      (∀ d : Digest, Digest.parse d.hex = .ok d) ∧
      (∀ id : DirectoryId, DirectoryId.parse id.hex = .ok id) ∧
      ∀ block, (Auditor.parseKey text = .ok ⟨block⟩ ↔ Digest.parse text = .ok ⟨block⟩) ∧
        (Auditor.parseKey text = .ok ⟨block⟩ ↔ DirectoryId.parse text = .ok ⟨block⟩) := by
  refine ⟨trimBlank text, fun s => Text.hasCore_iff, .digest text, .directoryId text, fun d => ?_,
    fun id => ?_, fun block => ⟨?_, ?_⟩⟩
  · exact Digest.parse_eq_ok_iff.mpr d.block.parse_hex
  · exact DirectoryId.parse_eq_ok_iff.mpr id.block.parse_hex
  · rw [Auditor.parseKey_eq_ok_iff, Digest.parse_eq_ok_iff]
  · rw [Auditor.parseKey_eq_ok_iff, DirectoryId.parse_eq_ok_iff]

namespace Sample

/-- 64 digits in both cases. -/
def spelled : String := String.ofList (List.replicate 32 'a' ++ List.replicate 32 'F')

/-- The digits between an ideographic space and the end of a line. -/
def spaced : String :=
  String.ofList (['\u3000'] ++ (List.replicate 32 'a' ++ List.replicate 32 'F') ++ ['\n'])

theorem toList_spelled : spelled.toList = List.replicate 32 'a' ++ List.replicate 32 'F' :=
  String.toList_ofList

theorem isDigits_spelled : Hex.IsDigits 64 spelled := by
  refine ⟨?_, ?_⟩
  · rw [← String.length_toList, toList_spelled]
    rfl
  · rw [toList_spelled]
    intro c hc
    rw [List.mem_append, List.mem_replicate, List.mem_replicate] at hc
    rcases hc with ⟨-, rfl⟩ | ⟨-, rfl⟩
    · decide
    · decide

theorem hasCore_spaced : Text.HasCore spaced spelled := by
  have htext : spaced.toList = ['\u3000'] ++ spelled.toList ++ ['\n'] := by
    rw [toList_spelled]
    exact String.toList_ofList
  exact .of_between htext (List.forall_mem_singleton.mpr (by decide))
    (List.forall_mem_singleton.mpr (by decide)) isDigits_spelled.isBlank_eq_false

theorem toLower_spelled :
    spelled.toLower = String.ofList (List.replicate 32 'a' ++ List.replicate 32 'f') := by
  apply String.ext
  rw [Text.toList_toLower, toList_spelled, String.toList_ofList, List.map_append, List.map_replicate,
    List.map_replicate]
  rfl

theorem isDigits_abcd : Hex.IsDigits 4 "abcd" := ⟨by decide, List.all_eq_true.mp (by decide)⟩

end Sample

theorem identities_read_exactly_sample :
    (∃ id, DirectoryId.parse Sample.spaced = .ok id ∧
      id.hex = String.ofList (List.replicate 32 'a' ++ List.replicate 32 'f')) ∧
    (∃ block, Auditor.parseKey Sample.spaced = .ok ⟨block⟩) ∧
    Digest.parse "abcd" = .error (.wrongLength 2) ∧
    Digest.parse "é" = .error (.invalidHex (.invalidCharacter 0xC3 0)) := by
  obtain ⟨core, hcore, -, hid, -, -, hkey⟩ := identities_read_exactly Sample.spaced
  obtain rfl : Sample.spelled = core := (hcore _).mp Sample.hasCore_spaced
  obtain ⟨id, hparse⟩ := hid.ok_iff.mpr Sample.isDigits_spelled
  refine ⟨⟨id, hparse, ?_⟩, ⟨id.block, (hkey id.block).2.mpr hparse⟩, ?_, ?_⟩
  · rw [hid.hex_eq id hparse, Sample.toLower_spelled]
  · obtain ⟨core, hcore, hdigest, -⟩ := identities_read_exactly "abcd"
    obtain rfl : "abcd" = core := (hcore _).mp (.self Sample.isDigits_abcd.isBlank_eq_false)
    exact (hdigest.wrongLength_iff 2).mpr ⟨Sample.isDigits_abcd, by decide⟩
  · obtain ⟨core, hcore, hdigest, -⟩ := identities_read_exactly "é"
    obtain rfl : "é" = core := (hcore _).mp (.self (List.forall_mem_singleton.mpr (by decide)))
    exact (hdigest.invalidCharacter_iff 0xC3 0).mpr ⟨by decide, .head (by decide)⟩

end KeyTransparency
