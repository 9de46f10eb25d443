import KeyTransparency.Bytes

/-!
# Text as bytes

Text travels as UTF-8 (`Text.utf8`). Bytes that are not UTF-8 are no text
(`Text.ofUtf8?`), and text has one spelling in bytes:

* `Text.ofUtf8?_utf8`, `Text.utf8_of_ofUtf8?`: the bytes read as a text are the text's own.
-/

namespace KeyTransparency.Text

/-- The UTF-8 bytes of a text. -/
def utf8 (s : String) : Bytes := s.toByteArray.data.toList

/-- The text with the given UTF-8 bytes, if they are UTF-8. -/
def ofUtf8? (bs : Bytes) : Option String := String.fromUTF8? ⟨bs.toArray⟩

theorem toByteArray_eq (s : String) : ⟨(utf8 s).toArray⟩ = s.toByteArray := by
  simp [utf8]

theorem ofUtf8?_utf8 (s : String) : ofUtf8? (utf8 s) = some s := by
  rw [ofUtf8?, toByteArray_eq, String.fromUTF8?, dif_pos s.isValidUTF8]
  rfl

theorem utf8_of_ofUtf8? {bs : Bytes} {s : String} (h : ofUtf8? bs = some s) : utf8 s = bs := by
  simp only [ofUtf8?, String.fromUTF8?] at h
  split at h
  · cases h; simp [utf8, String.fromUTF8]
  · cases h

theorem utf8_injective {s t : String} (h : utf8 s = utf8 t) : s = t := by
  have := ofUtf8?_utf8 s
  rw [h, ofUtf8?_utf8] at this
  exact (Option.some.inj this).symm

end KeyTransparency.Text
