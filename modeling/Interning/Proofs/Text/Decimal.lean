import Interning.Text.Decimal

/-!
# The digits of written numbers

    a written number has no zero in front, unless it is zero        (exists_write)
    a digit is none of the marks that stand between numerals       (isDigit_ne)
-/

namespace Interning.Text.Decimal

/-! ## Lemmas -/

/-- A digit differs from each character that is none. -/
theorem isDigit_ne {c d : Char} (hc : c.isDigit = true) (hd : d.isDigit = false) : c ≠ d := by
  rintro rfl
  cases hc.symm.trans hd

theorem digitChar_ne_zero : ∀ n, n < 10 → n ≠ 0 → Nat.digitChar n ≠ '0' := by decide

/-- A number that is not zero is written with another digit than zero in front. -/
theorem exists_write {n : Nat} (hn : n ≠ 0) : ∃ c rest, write n = c :: rest ∧ c ≠ '0' := by
  induction n using Nat.strongRecOn with
  | ind n ih =>
    rcases Nat.lt_or_ge n 10 with h | h
    · exact ⟨_, _, Nat.toDigits_of_lt_base h, digitChar_ne_zero n h hn⟩
    · obtain ⟨c, rest, hw, hc⟩ := ih (n / 10) (by omega) (by omega)
      refine ⟨c, rest ++ [Nat.digitChar (n % 10)], ?_, hc⟩
      rw [write, Nat.toDigits_of_base_le (by decide) h]
      exact congrArg (· ++ _) hw

/-- A written number is zero, or starts with another digit. -/
theorem write_cases (n : Nat) :
    write n = ['0'] ∨ ∃ c rest, write n = c :: rest ∧ c ≠ '0' := by
  by_cases hn : n = 0
  · exact .inl (by subst hn; rfl)
  · exact .inr (exists_write hn)

end Interning.Text.Decimal
