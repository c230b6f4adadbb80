/-!
# Decimal numerals

A numeral is a list of the digits `0` to `9`, the most significant first.

    Decimal.read? (Decimal.write n) = some n             (read?_write)
-/

namespace Interning.Text.Decimal

/-! ## Algorithm -/

/-- The digits of `n`, without leading zeros. -/
def write (n : Nat) : List Char := Nat.toDigits 10 n

/-- The number that the digits denote; nothing when there is no digit or another character. -/
def read? (cs : List Char) : Option Nat :=
  if !cs.isEmpty && cs.all Char.isDigit then some (Nat.ofDigitChars 10 cs 0) else none

def text (n : Nat) : String := String.ofList (write n)

/-! ## Lemmas -/

theorem write_ne_nil (n : Nat) : write n ≠ [] := Nat.toDigits_ne_nil

theorem isDigit_of_mem_write {n : Nat} {c : Char} (h : c ∈ write n) : c.isDigit = true :=
  Nat.isDigit_of_mem_toDigits (by decide) (by decide) h

/-- A written number reads back. -/
theorem read?_write (n : Nat) : read? (write n) = some n := by
  have hall : (write n).all Char.isDigit = true :=
    List.all_eq_true.2 fun c hc => isDigit_of_mem_write hc
  have hne : (write n).isEmpty = false := by simp [write_ne_nil]
  rw [read?, hall, hne]
  simp [write, Nat.ofDigitChars_toDigits]

end Interning.Text.Decimal
