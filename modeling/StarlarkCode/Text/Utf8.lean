/-!
# Texts as UTF-8 bytes

The bytes of a text, and the text of some bytes where they are well-formed UTF-8. The two are
inverse: `ofUtf8?_utf8` and `utf8_of_ofUtf8?`.
-/

namespace StarlarkCode.Text

/-- The UTF-8 bytes of a text. -/
def utf8 (s : String) : List UInt8 :=
  s.toByteArray.data.toList

/-- The text with these UTF-8 bytes, if they are well-formed. -/
def ofUtf8? (bytes : List UInt8) : Option String :=
  String.fromUTF8? ⟨bytes.toArray⟩

/-- The bytes of a text read back as that text. -/
theorem ofUtf8?_utf8 (s : String) : ofUtf8? (utf8 s) = some s := by
  have valid : (ByteArray.mk (utf8 s).toArray).IsValidUTF8 := by
    simpa [utf8] using s.isValidUTF8
  rw [ofUtf8?, String.fromUTF8?, dif_pos valid]
  congr 1

/-- Bytes that read as a text are the bytes of that text. -/
theorem utf8_of_ofUtf8? {bytes : List UInt8} {s : String} (h : ofUtf8? bytes = some s) :
    utf8 s = bytes := by
  rw [ofUtf8?, String.fromUTF8?] at h
  split at h
  · cases h
    rfl
  · cases h

end StarlarkCode.Text
