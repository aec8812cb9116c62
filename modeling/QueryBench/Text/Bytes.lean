/-!
# Byte sequences and UTF-8

Files hold bytes, and what is read from them becomes text only where the bytes
are valid UTF-8.  Where they are not, the reader reports how many bytes the
longest valid initial part has.
-/

namespace QueryBench

abbrev Bytes := List UInt8

namespace Bytes

/-- The UTF-8 form of a text. -/
def ofString (s : String) : Bytes :=
  s.toList.flatMap String.utf8EncodeChar

/-- The text with this UTF-8 form, if there is one. -/
def toString? (b : Bytes) : Option String :=
  String.fromUTF8? b.toByteArray

/-- Length of the longest initial part, of at most `n` bytes, that is valid
UTF-8. -/
def validLengthBelow (b : Bytes) : Nat → Nat
  | 0 => 0
  | n + 1 => if (toString? (b.take (n + 1))).isSome then n + 1 else validLengthBelow b n

/-- Length of the longest valid initial part: the offset of the first byte that
belongs to no character. -/
def validLength (b : Bytes) : Nat :=
  validLengthBelow b b.length

theorem toByteArray_ofString (s : String) :
    (ofString s).toByteArray = s.toByteArray := by
  have h : s.toList.utf8Encode = (ofString s).toByteArray := rfl
  rw [← h]
  simp

@[simp] theorem toString?_ofString (s : String) : toString? (ofString s) = some s := by
  unfold toString?
  rw [toByteArray_ofString]
  unfold String.fromUTF8?
  split
  · rfl
  · rename_i h
    exact absurd s.isValidUTF8 (by simpa using h)

end Bytes
end QueryBench
