import Interning.Normalizer
import Mathlib.Data.String.Basic

/-!
# The bytes of a key

Lowering the ASCII letters of a text keeps the number of its bytes: an upper-case ASCII letter and
its lower-case one take a byte each.  So the keys of the normalizers that a configuration can name
take as many bytes as their values.

    (foldCase s).utf8ByteSize = s.utf8ByteSize                    (utf8ByteSize_foldCase)
    (k.normalizer.key s).utf8ByteSize = s.utf8ByteSize                 (utf8ByteSize_key)
-/

namespace Interning

/-! ## Lemmas -/

namespace Text

/-- An ASCII letter takes one byte in either case. -/
theorem utf8Size_toLower (c : Char) : c.toLower.utf8Size = c.utf8Size := by
  have hone : ∀ d : Char, d.val.toNat ≤ 127 → d.utf8Size = 1 := fun d h =>
    if_pos (UInt32.le_iff_toNat_le.2 h)
  unfold Char.toLower
  split
  · next h =>
    obtain ⟨h₁, h₂⟩ := h
    have h₁ : 65 ≤ c.val.toNat := UInt32.le_iff_toNat_le.1 h₁
    have h₂ : c.val.toNat ≤ 90 := UInt32.le_iff_toNat_le.1 h₂
    have hlower : (c.val + ('a'.val - 'A'.val)).toNat = c.val.toNat + 32 := by
      rw [UInt32.toNat_add]
      exact Nat.mod_eq_of_lt (by show c.val.toNat + 32 < 2 ^ 32; omega)
    rw [hone c (by omega), hone _ (by show (c.val + _).toNat ≤ 127; omega)]
  · rfl

theorem utf8Len_map_toLower (cs : List Char) :
    String.utf8Len (cs.map Char.toLower) = String.utf8Len cs := by
  induction cs with
  | nil => rfl
  | cons c cs ih =>
    rw [List.map_cons, String.utf8Len_cons, String.utf8Len_cons, ih, utf8Size_toLower]

/-- Folding keeps the number of bytes. -/
theorem utf8ByteSize_foldCase (s : String) : (foldCase s).utf8ByteSize = s.utf8ByteSize := by
  have hbytes : ∀ t : String, t.utf8ByteSize = String.utf8Len t.toList := fun t => by
    rw [← String.utf8ByteSize_ofList, String.ofList_toList]
  rw [hbytes, hbytes, toList_foldCase, utf8Len_map_toLower]

end Text

/-- The normalizers that a configuration can name keep the number of bytes. -/
theorem Normalization.utf8ByteSize_key (k : Normalization) (s : String) :
    (k.normalizer.key s).utf8ByteSize = s.utf8ByteSize := by
  cases k with
  | verbatim => rfl
  | asciiCaseFold =>
    show ((if Text.hasUpper s then Key.made (Text.foldCase s)
      else .borrowed).text s).utf8ByteSize = _
    split
    · exact Text.utf8ByteSize_foldCase s
    · rfl

end Interning
