/-!
# ASCII case folding

`foldCase` lowers the letters `A` to `Z` and keeps every other character.  `hasUpper` looks for
such a letter in the UTF-8 bytes of a text.

    (foldCase s).toList = s.toList.map Char.toLower      (toList_foldCase)
    foldCase (s ++ t) = foldCase s ++ foldCase t         (foldCase_append)
-/

namespace Interning.Text

/-! ## Algorithm -/

/-- The text with its ASCII letters in lower case. -/
def foldCase (s : String) : String := s.map Char.toLower

/-- Whether `b` is the byte of an upper-case ASCII letter. -/
def isUpperByte (b : UInt8) : Bool := 65 ≤ b && b ≤ 90

/-- Whether a byte of the text is an upper-case ASCII letter. -/
def hasUpper (s : String) : Bool := s.toByteArray.data.any isUpperByte

/-! ## Lemmas -/

@[simp]
theorem toList_foldCase (s : String) : (foldCase s).toList = s.toList.map Char.toLower :=
  String.toList_map

theorem foldCase_append (s t : String) : foldCase (s ++ t) = foldCase s ++ foldCase t := by
  apply String.toList_inj.1
  simp

end Interning.Text
