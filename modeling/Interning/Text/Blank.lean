/-!
# Blank characters

`isBlank` is the Unicode property `White_Space`, and `trim` takes the blank characters off both
ends of a text.

    c.isWhitespace → isBlank c                          (isBlank_of_isWhitespace)
    (trimmed cs).getLast? = some c → isBlank c = false   (getLast_trimmed)
    all of u blank → trimmed (u ++ cs) = trimmed cs      (trimmed_append_left)
-/

namespace Interning.Text

/-! ## Algorithm -/

/-- The ranges of code points with the property `White_Space`, both ends included. -/
def blankRanges : List (Nat × Nat) :=
  [(0x09, 0x0D), (0x20, 0x20), (0x85, 0x85), (0xA0, 0xA0), (0x1680, 0x1680), (0x2000, 0x200A),
   (0x2028, 0x2029), (0x202F, 0x202F), (0x205F, 0x205F), (0x3000, 0x3000)]

/-- Whether `c` has the property `White_Space`. -/
def isBlank (c : Char) : Bool := blankRanges.any fun r => r.1 ≤ c.toNat && c.toNat ≤ r.2

/-- The characters without the blank ones at both ends. -/
def trimmed (cs : List Char) : List Char :=
  ((cs.dropWhile isBlank).reverse.dropWhile isBlank).reverse

def trim (s : String) : String := String.ofList (trimmed s.toList)

/-! ## Lemmas -/

theorem isBlank_of_isWhitespace {c : Char} (h : c.isWhitespace = true) : isBlank c = true := by
  simp only [Char.isWhitespace, Bool.or_eq_true, decide_eq_true_eq] at h
  rcases h with ((rfl | rfl) | rfl) | rfl <;> decide

theorem head?_dropWhile_isBlank (cs : List Char) {c : Char}
    (h : (cs.dropWhile isBlank).head? = some c) : isBlank c = false := by
  induction cs with
  | nil => simp at h
  | cons d cs ih =>
    rw [List.dropWhile_cons] at h
    split at h
    · exact ih h
    · next hd => simp_all

theorem getLast_trimmed (cs : List Char) {c : Char} (h : (trimmed cs).getLast? = some c) :
    isBlank c = false := by
  rw [trimmed, List.getLast?_reverse] at h
  exact head?_dropWhile_isBlank _ h

theorem dropWhile_append_blank {u : List Char} (hu : ∀ c ∈ u, isBlank c = true)
    (cs : List Char) : (u ++ cs).dropWhile isBlank = cs.dropWhile isBlank := by
  induction u with
  | nil => rfl
  | cons c u ih =>
    rw [List.cons_append, List.dropWhile_cons, if_pos (hu c (List.mem_cons_self ..))]
    exact ih fun d hd => hu d (List.mem_cons_of_mem _ hd)

/-- Blank characters in front are not seen. -/
theorem trimmed_append_left {u : List Char} (hu : ∀ c ∈ u, isBlank c = true) (cs : List Char) :
    trimmed (u ++ cs) = trimmed cs := by
  rw [trimmed, dropWhile_append_blank hu, trimmed]

end Interning.Text
