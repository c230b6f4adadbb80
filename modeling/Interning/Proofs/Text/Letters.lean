import Interning.Proofs.Text.CaseFold
import Mathlib.Data.List.Forall2

/-!
# Keys without regard to the case of letters

A letter has an upper and a lower case; other characters have none.  The test for upper-case letters
looks at bytes and the folding at characters.  They agree, because a character that is no ASCII
character has no byte that an ASCII character has.

    hasUpper s = s.toList.any Char.isUpper                                 (hasUpper_eq)
    c.toLower = d ↔ Lowered c d                                            (toLower_eq_iff)
    c.toLower = d.toLower ↔ CaseVariant c d                       (toLower_eq_toLower_iff)
    the keys of `asciiCaseFold` are made by these rules          (asciiCaseFold_foldsCase)
-/

namespace Interning

/-! ## Algorithm -/

namespace Text

/-- The letters, each in upper and in lower case. -/
def letters : List (Char × Char) :=
  "ABCDEFGHIJKLMNOPQRSTUVWXYZ".toList.zip "abcdefghijklmnopqrstuvwxyz".toList

/-- `d` is the letter `c` in lower case, or `c` itself if that is no letter in upper case. -/
def Lowered (c d : Char) : Prop := (c, d) ∈ letters ∨ (∀ e, (c, e) ∉ letters) ∧ d = c

/-- Two characters differ at most in the case of a letter. -/
def CaseVariant (c d : Char) : Prop := c = d ∨ (c, d) ∈ letters ∨ (d, c) ∈ letters

end Text

/-- The keys are the values with their letters in lower case. -/
structure Normalizer.FoldsCase (f : Normalizer) : Prop where
  /-- A key has the characters of the value one by one, with the letters lowered. -/
  lowered : ∀ s, List.Forall₂ Text.Lowered s.toList (f.key s).toList
  /-- What is not ASCII stays in its place. -/
  beyond : ∀ (s : String) (n : Nat) (c : Char), s.toList[n]? = some c → 128 ≤ c.toNat →
    (f.key s).toList[n]? = some c
  /-- Nothing is copied exactly where there is nothing to change. -/
  borrowed : ∀ s, f.borrows s = true ↔ f.key s = s
  /-- The test of the bytes finds out whether the conversion changes anything. -/
  tested : ∀ s, Text.hasUpper s = false ↔ Text.foldCase s = s
  /-- Either way the key is what the conversion makes. -/
  converted : ∀ s, f.key s = Text.foldCase s
  length : ∀ s, (f.key s).length = s.length
  utf8ByteSize : ∀ s, (f.key s).utf8ByteSize = s.utf8ByteSize
  idempotent : ∀ s, f.key (f.key s) = f.key s
  append : ∀ s t, f.key (s ++ t) = f.key s ++ f.key t
  /-- Values share a key exactly if they differ in the case of letters only. -/
  shared : ∀ s t, f.key s = f.key t ↔
    s.length = t.length ∧ ∀ c d, (c, d) ∈ s.toList.zip t.toList → Text.CaseVariant c d

/-! ## Lemmas -/

namespace Text

variable {c d : Char} {s t : String}

/-! ### Letters -/

theorem isUpper_iff : c.isUpper = true ↔ 65 ≤ c.toNat ∧ c.toNat ≤ 90 :=
  have hwords : c.isUpper = true ↔ 65 ≤ c.val ∧ c.val ≤ 90 := decide_eq_true_iff
  hwords.trans (and_congr UInt32.le_iff_toNat_le UInt32.le_iff_toNat_le)

theorem toLower_of_not_isUpper (h : c.isUpper = false) : c.toLower = c :=
  dif_neg (of_decide_eq_false h)

theorem of_mem_letters (h : (c, d) ∈ letters) :
    c.isUpper = true ∧ c.toLower = d ∧ d.isUpper = false :=
  have hall : ∀ p ∈ letters, p.1.isUpper = true ∧ p.1.toLower = p.2 ∧ p.2.isUpper = false := by
    decide
  hall (c, d) h

/-- There is no upper-case letter but those. -/
theorem mem_letters (h : c.isUpper = true) : (c, c.toLower) ∈ letters := by
  have hall : ∀ n < 26, (Char.ofNat (65 + n), (Char.ofNat (65 + n)).toLower) ∈ letters := by decide
  obtain ⟨h₁, h₂⟩ := isUpper_iff.1 h
  have hc := hall (c.toNat - 65) (by omega)
  rwa [Nat.add_sub_cancel' h₁, Char.ofNat_toNat] at hc

theorem isUpper_toLower (c : Char) : c.toLower.isUpper = false := by
  cases h : c.isUpper with
  | true => exact (of_mem_letters (mem_letters h)).2.2
  | false => rw [toLower_of_not_isUpper h, h]

theorem toLower_toLower (c : Char) : c.toLower.toLower = c.toLower :=
  toLower_of_not_isUpper (isUpper_toLower c)

theorem toLower_eq_self_iff : c.toLower = c ↔ c.isUpper = false :=
  ⟨fun h => h ▸ isUpper_toLower c, toLower_of_not_isUpper⟩

theorem toLower_eq_iff : c.toLower = d ↔ Lowered c d := by
  constructor
  · rintro rfl
    cases h : c.isUpper with
    | true => exact .inl (mem_letters h)
    | false =>
      refine .inr ⟨fun e he => ?_, toLower_of_not_isUpper h⟩
      rw [(of_mem_letters he).1] at h
      cases h
  · rintro (h | ⟨h, rfl⟩)
    · exact (of_mem_letters h).2.1
    · refine toLower_of_not_isUpper ?_
      by_contra hu
      exact h _ (mem_letters (Bool.eq_true_of_not_eq_false hu))

/-- No two letters share the lower case. -/
theorem eq_of_mem_letters {e : Char} (hc : (c, e) ∈ letters) (hd : (d, e) ∈ letters) : c = d :=
  have hall : ∀ p ∈ letters, ∀ q ∈ letters, p.2 = q.2 → p.1 = q.1 := by decide
  hall (c, e) hc (d, e) hd rfl

theorem toLower_eq_toLower_iff : c.toLower = d.toLower ↔ CaseVariant c d := by
  constructor
  · intro h
    cases hc : c.isUpper with
    | true =>
      have hmem := mem_letters hc
      rw [h] at hmem
      cases hd : d.isUpper with
      | true => exact .inl (eq_of_mem_letters hmem (mem_letters hd))
      | false => exact .inr (.inl (toLower_of_not_isUpper hd ▸ hmem))
    | false =>
      rw [toLower_of_not_isUpper hc] at h
      cases hd : d.isUpper with
      | true => exact .inr (.inr (h ▸ mem_letters hd))
      | false => exact .inl (h.trans (toLower_of_not_isUpper hd))
  · rintro (rfl | h | h)
    · rfl
    · obtain ⟨-, rfl, -⟩ := of_mem_letters h
      exact (toLower_toLower c).symm
    · obtain ⟨-, rfl, -⟩ := of_mem_letters h
      exact toLower_toLower d

/-! ### Bytes -/

theorem isUpperByte_ofNat {n : Nat} (h : n < 256) :
    isUpperByte (.ofNat n) = decide (65 ≤ n ∧ n ≤ 90) := by
  have hn : (UInt8.ofNat n).toNat = n := UInt8.toNat_ofNat_of_lt' h
  rw [isUpperByte, Bool.decide_and]
  simp only [UInt8.le_iff_toNat_le, hn]
  rfl

/-- Only an upper-case letter has the byte of one: the bytes of longer characters are all large. -/
theorem any_isUpperByte (c : Char) : (String.utf8EncodeChar c).any isUpperByte = c.isUpper := by
  have hlarge : ∀ n, 128 ≤ n → n < 256 → isUpperByte (.ofNat n) = false := fun n h h' => by
    rw [isUpperByte_ofNat h', decide_eq_false]
    omega
  have hn : c.val.toNat = c.toNat := rfl
  rw [String.utf8EncodeChar.eq_def, hn]
  dsimp only
  split
  · rw [List.any_cons, List.any_nil, Bool.or_false, isUpperByte_ofNat (by omega), Bool.eq_iff_iff,
      decide_eq_true_eq, isUpper_iff]
  · -- From here on every byte is at least 128.
    have hc : c.isUpper = false := by
      rw [← Bool.not_eq_true, isUpper_iff]
      omega
    rw [hc]
    split
    · simp (disch := omega) only [List.any_cons, hlarge, List.any_nil, Bool.or_false]
    split
    · simp (disch := omega) only [List.any_cons, hlarge, List.any_nil, Bool.or_false]
    · simp (disch := omega) only [List.any_cons, hlarge, List.any_nil, Bool.or_false]

/-- The bytes tell what the characters tell. -/
theorem hasUpper_eq (s : String) : hasUpper s = s.toList.any Char.isUpper := by
  rw [hasUpper, ← Array.any_toList, ← String.utf8Encode_toList, List.utf8Encode,
    List.toList_data_toByteArray, List.any_flatMap]
  exact congrArg _ (funext any_isUpperByte)

/-- The test of the bytes fails exactly where the conversion changes nothing. -/
theorem hasUpper_eq_false_iff : hasUpper s = false ↔ foldCase s = s := by
  have hmap := List.map_eq_map_iff (f := Char.toLower) (g := id) (l := s.toList)
  rw [List.map_id] at hmap
  rw [← String.toList_inj, toList_foldCase, hasUpper_eq, List.any_eq_false, hmap]
  exact forall₂_congr fun c _ => by rw [id, toLower_eq_self_iff, Bool.not_eq_true]

/-! ### Texts -/

theorem length_foldCase (s : String) : (foldCase s).length = s.length := by
  rw [← String.length_toList, toList_foldCase, List.length_map, String.length_toList]

theorem foldCase_foldCase (s : String) : foldCase (foldCase s) = foldCase s := by
  rw [← String.toList_inj, toList_foldCase, toList_foldCase, List.map_map]
  exact congrArg (List.map · _) (funext toLower_toLower)

theorem forall₂_lowered_foldCase (s : String) :
    List.Forall₂ Lowered s.toList (foldCase s).toList := by
  rw [toList_foldCase, List.forall₂_map_right_iff, List.forall₂_same]
  exact fun c _ => toLower_eq_iff.1 rfl

theorem foldCase_eq_foldCase_iff : foldCase s = foldCase t ↔
    s.length = t.length ∧ ∀ c d, (c, d) ∈ s.toList.zip t.toList → CaseVariant c d := by
  rw [← String.toList_inj, toList_foldCase, toList_foldCase, ← List.forall₂_eq_eq_eq,
    List.forall₂_map_left_iff, List.forall₂_map_right_iff, List.forall₂_iff_zip,
    String.length_toList, String.length_toList]
  refine and_congr_right fun _ => forall₂_congr fun c d => ?_
  rw [toLower_eq_toLower_iff]

end Text

/-! ### Keys -/

namespace Normalizer

theorem key_asciiCaseFold (s : String) : asciiCaseFold.key s = Text.foldCase s := by
  show (if Text.hasUpper s then Key.made (Text.foldCase s) else .borrowed).text s = _
  cases h : Text.hasUpper s with
  | true => rfl
  | false => exact (Text.hasUpper_eq_false_iff.1 h).symm

theorem borrows_asciiCaseFold (s : String) :
    asciiCaseFold.borrows s = true ↔ Text.hasUpper s = false := by
  show (if Text.hasUpper s then Key.made (Text.foldCase s) else .borrowed) == Key.borrowed ↔ _
  cases Text.hasUpper s with
  | true => exact iff_of_false nofun nofun
  | false => exact iff_of_true rfl rfl

/-- Values become keys without regard to ASCII case. -/
theorem asciiCaseFold_foldsCase : asciiCaseFold.FoldsCase where
  lowered s := key_asciiCaseFold s ▸ Text.forall₂_lowered_foldCase s
  beyond s n c hc h := by
    have hn : c.isUpper = false := by
      rw [← Bool.not_eq_true, Text.isUpper_iff]
      omega
    rw [key_asciiCaseFold, Text.toList_foldCase, List.getElem?_map, hc, Option.map_some,
      Text.toLower_of_not_isUpper hn]
  borrowed s := by rw [borrows_asciiCaseFold, Text.hasUpper_eq_false_iff, key_asciiCaseFold]
  tested s := Text.hasUpper_eq_false_iff
  converted := key_asciiCaseFold
  length s := by rw [key_asciiCaseFold, Text.length_foldCase]
  utf8ByteSize s := by rw [key_asciiCaseFold, Text.utf8ByteSize_foldCase]
  idempotent s := by rw [key_asciiCaseFold, key_asciiCaseFold, Text.foldCase_foldCase]
  append s t := by simp only [key_asciiCaseFold, Text.foldCase_append]
  shared s t := by rw [key_asciiCaseFold, key_asciiCaseFold, Text.foldCase_eq_foldCase_iff]

/-- The letters of other alphabets keep their case, and so does the sign of the unit Kelvin. -/
example : asciiCaseFold.key "ÀB\u212aK" = "Àb\u212ak" := by decide +kernel

end Normalizer

end Interning
