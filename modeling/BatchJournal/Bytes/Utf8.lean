import BatchJournal.Bytes.Basic

namespace BatchJournal

/-!
# Text as bytes

Names are text, and every stored form of a name is its UTF-8.  `Utf8.encode` is total;
`Utf8.decode?` refuses exactly the byte strings that are no valid UTF-8.
-/

namespace Utf8

/-- The UTF-8 form of a text. -/
def encode (s : String) : Bytes := s.toByteArray.data.toList

/-- The text whose `encode` is given, or `none` if the bytes are not valid. -/
def decode? (bs : Bytes) : Option String := String.fromUTF8? ⟨bs.toArray⟩

@[simp] theorem decode?_encode (s : String) : decode? (encode s) = some s := by
  have h : (⟨(encode s).toArray⟩ : ByteArray) = s.toByteArray := by simp [encode]
  simp only [decode?, h, String.fromUTF8?]
  rw [dif_pos]
  · rfl
  · simpa using s.isValidUTF8

theorem encode_of_decode? {bs : Bytes} {s : String} (h : decode? bs = some s) : encode s = bs := by
  simp only [decode?, String.fromUTF8?] at h
  split at h
  · simp only [Option.some.injEq] at h
    subst h
    simp [encode, String.fromUTF8]
  · simp at h

end Utf8

end BatchJournal
