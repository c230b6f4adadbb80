import Interning.Text.Order
import Mathlib.Data.List.Lex

/-!
# The order of bytes is the order of code points

Texts are compared by their bytes.  The bytes of a character tell where it stands among all
characters before any of them ends: a longer encoding starts with a greater byte, and encodings of
one length have the digits of the code point to the base 64.  So texts might as well be compared by
their code points.

    compare (c's bytes ++ xs) (d's bytes ++ ys) = .lt if c is before d   (compare_utf8EncodeChar)
    compareBytes s t = compare (codePoints s) (codePoints t)            (compareBytes_eq_codePoints)
    comparing lists tells at the first difference which one is less         (comparesLex_compare)
    `compareBytes` is a total order of texts                                          (instances)
-/

namespace Interning.Text

/-! ## Algorithm -/

def codePoints (s : String) : List Nat := s.toList.map Char.toNat

/-- What comes of comparing two lists by the first place where they differ; a list comes before
those that continue it. -/
def ComparesLex {α : Type} [LT α] (xs ys : List α) : Ordering → Prop
  | .lt => List.Lex (· < ·) xs ys
  | .eq => xs = ys
  | .gt => List.Lex (· < ·) ys xs

/-- `s` is the last one of some texts. -/
def IsLast (texts : List String) (s : String) : Prop :=
  s ∈ texts ∧ ∀ t ∈ texts, (compareBytes t s).isLE = true

/-! ## Lemmas -/

/-! ### Lists -/

section Lists

variable {α : Type} [LT α] [Ord α] [Std.LawfulLTOrd α] [Std.LawfulEqOrd α]

theorem compare_eq_lt_iff_lex {xs ys : List α} :
    compare xs ys = .lt ↔ List.Lex (· < ·) xs ys := by
  induction xs generalizing ys with
  | nil =>
    cases ys with
    | nil => exact iff_of_false nofun nofun
    | cons y ys => exact iff_of_true rfl .nil
  | cons x xs ih =>
    cases ys with
    | nil => exact iff_of_false nofun nofun
    | cons y ys =>
      rw [List.compare_cons_cons, Ordering.then_eq_lt, ih, List.cons_lex_cons_iff,
        Std.LawfulLTCmp.eq_lt_iff_lt, Std.compare_eq_iff_eq]

/-- The comparison of lists goes by the first difference. -/
theorem comparesLex_compare [Std.TransOrd α] (xs ys : List α) :
    ComparesLex xs ys (compare xs ys) := by
  cases h : compare xs ys with
  | lt => exact compare_eq_lt_iff_lex.1 h
  | eq => exact Std.compare_eq_iff_eq.1 h
  | gt => exact compare_eq_lt_iff_lex.1 (Std.OrientedCmp.gt_iff_lt.1 h)

end Lists

/-! ### Characters -/

theorem compare_ofNat_cons_eq_lt {a b : Nat} (ha : a < 256) (hb : b < 256) {xs ys : List UInt8} :
    compare (UInt8.ofNat a :: xs) (UInt8.ofNat b :: ys) = .lt ↔
      a < b ∨ a = b ∧ compare xs ys = .lt := by
  rw [List.compare_cons_cons, Ordering.then_eq_lt, Std.LawfulLTCmp.eq_lt_iff_lt,
    Std.compare_eq_iff_eq, UInt8.ofNat_lt_iff_lt ha hb, ← UInt8.toNat_inj,
    UInt8.toNat_ofNat_of_lt' ha, UInt8.toNat_ofNat_of_lt' hb]

/-- The bytes of a character, by their number. -/
theorem utf8EncodeChar_cases (c : Char) :
    (c.toNat < 128 ∧ String.utf8EncodeChar c = [.ofNat c.toNat]) ∨
    (128 ≤ c.toNat ∧ c.toNat < 2048 ∧ String.utf8EncodeChar c =
      [.ofNat (c.toNat / 64 % 32 + 192), .ofNat (c.toNat % 64 + 128)]) ∨
    (2048 ≤ c.toNat ∧ c.toNat < 65536 ∧ String.utf8EncodeChar c =
      [.ofNat (c.toNat / 64 / 64 % 16 + 224), .ofNat (c.toNat / 64 % 64 + 128),
        .ofNat (c.toNat % 64 + 128)]) ∨
    (65536 ≤ c.toNat ∧ c.toNat < 1114112 ∧ String.utf8EncodeChar c =
      [.ofNat (c.toNat / 64 / 64 / 64 % 8 + 240), .ofNat (c.toNat / 64 / 64 % 64 + 128),
        .ofNat (c.toNat / 64 % 64 + 128), .ofNat (c.toNat % 64 + 128)]) := by
  have hn : c.val.toNat = c.toNat := rfl
  have hvalid : c.toNat < 1114112 := by
    rcases c.valid with h | h
    · exact Nat.lt_trans h (by decide)
    · exact h.2
  rw [String.utf8EncodeChar.eq_def, hn]
  simp only [Nat.div_div_eq_div_mul, Nat.reduceMul]
  split
  · exact .inl ⟨by omega, rfl⟩
  split
  · exact .inr (.inl ⟨by omega, by omega, rfl⟩)
  split
  · exact .inr (.inr (.inl ⟨by omega, by omega, rfl⟩))
  · exact .inr (.inr (.inr ⟨by omega, hvalid, rfl⟩))

/-- The bytes of two characters differ before any of the two encodings ends, and the first
difference is that of the code points. -/
theorem compare_utf8EncodeChar {c d : Char} (h : c.toNat < d.toNat) (xs ys : List UInt8) :
    compare (String.utf8EncodeChar c ++ xs) (String.utf8EncodeChar d ++ ys) = .lt := by
  -- Encodings of different lengths differ in the first byte; otherwise the digits are compared.
  rcases utf8EncodeChar_cases c with ⟨hc, he⟩ | ⟨hc, hc', he⟩ | ⟨hc, hc', he⟩ | ⟨hc, hc', he⟩ <;>
  rcases utf8EncodeChar_cases d with ⟨hd, he'⟩ | ⟨hd, hd', he'⟩ | ⟨hd, hd', he'⟩ | ⟨hd, hd', he'⟩ <;>
  · rw [he, he']
    simp (disch := omega) only [List.cons_append, List.nil_append, compare_ofNat_cons_eq_lt]
    omega

/-! ### Texts -/

theorem bytes_eq_flatMap (s : String) : bytes s = s.toList.flatMap String.utf8EncodeChar := by
  rw [bytes, ← String.utf8Encode_toList, List.utf8Encode, List.toList_data_toByteArray]

theorem compareBytes_eq (s t : String) : compareBytes s t = compare (bytes s) (bytes t) := by
  rw [compareBytes, List.compare_eq_compareLex]

/-- What is in front of both is not seen. -/
theorem compare_append_left (xs ys zs : List UInt8) :
    compare (xs ++ ys) (xs ++ zs) = compare ys zs := by
  induction xs with
  | nil => rfl
  | cons x xs ih =>
    have hx : compare x x = .eq := Std.ReflCmp.compare_self
    rw [List.cons_append, List.cons_append, List.compare_cons_cons, hx, ih, Ordering.eq_then]

theorem compare_flatMap_utf8EncodeChar (cs ds : List Char) :
    compare (cs.flatMap String.utf8EncodeChar) (ds.flatMap String.utf8EncodeChar) =
      compare (cs.map Char.toNat) (ds.map Char.toNat) := by
  induction cs generalizing ds with
  | nil =>
    cases ds with
    | nil => rfl
    | cons d ds =>
      obtain ⟨b, bs, hd⟩ := List.exists_cons_of_ne_nil (String.utf8EncodeChar_ne_nil (c := d))
      rw [List.flatMap_cons, hd]
      rfl
  | cons c cs ih =>
    cases ds with
    | nil =>
      obtain ⟨b, bs, hc⟩ := List.exists_cons_of_ne_nil (String.utf8EncodeChar_ne_nil (c := c))
      rw [List.flatMap_cons, hc]
      rfl
    | cons d ds =>
      rw [List.flatMap_cons, List.flatMap_cons, List.map_cons, List.map_cons,
        List.compare_cons_cons]
      rcases Nat.lt_trichotomy c.toNat d.toNat with h | h | h
      · rw [compare_utf8EncodeChar h, Nat.compare_eq_lt.2 h]
        rfl
      · rw [Char.toNat_inj.1 h, compare_append_left, ih, Nat.compare_eq_eq.2 rfl]
        rfl
      · rw [Std.OrientedCmp.gt_iff_lt.2 (compare_utf8EncodeChar h _ _), Nat.compare_eq_gt.2 h]
        rfl

/-- The order of the bytes is that of the code points. -/
theorem compareBytes_eq_codePoints (s t : String) :
    compareBytes s t = compare (codePoints s) (codePoints t) := by
  rw [compareBytes_eq, bytes_eq_flatMap, bytes_eq_flatMap, compare_flatMap_utf8EncodeChar,
    codePoints, codePoints]

instance : Std.TransCmp compareBytes where
  eq_swap := by
    intro s t
    rw [compareBytes_eq, compareBytes_eq]
    exact Std.OrientedCmp.eq_swap
  isLE_trans := by
    intro s t u hst htu
    rw [compareBytes_eq] at hst htu ⊢
    exact Std.TransCmp.isLE_trans hst htu

instance : Std.LawfulEqCmp compareBytes where
  compare_self := compareBytes_self _
  eq_of_compare := by
    intro s t h
    rw [compareBytes_eq] at h
    exact bytes_inj.1 (Std.LawfulEqCmp.eq_of_compare h)

/-- No more than one text is the last one. -/
theorem IsLast.unique {texts : List String} {s t : String} (hs : IsLast texts s)
    (ht : IsLast texts t) : s = t :=
  Std.LawfulEqCmp.eq_of_compare
    (Std.OrientedCmp.isLE_antisymm (ht.2 s hs.1) (hs.2 t ht.1))

/-- Which texts there are decides which one is the last. -/
theorem IsLast.congr {texts texts' : List String} {s : String} (hs : IsLast texts s)
    (h : ∀ t, t ∈ texts ↔ t ∈ texts') : IsLast texts' s :=
  ⟨(h s).1 hs.1, fun t ht => hs.2 t ((h t).2 ht)⟩

end Interning.Text
