/-!
# Hexadecimal numerals
-/

namespace Interning.Text.Hex

def digit? (c : Char) : Option Nat :=
  if '0' ≤ c ∧ c ≤ '9' then some (c.toNat - '0'.toNat)
  else if 'a' ≤ c ∧ c ≤ 'f' then some (c.toNat - 'a'.toNat + 10)
  else if 'A' ≤ c ∧ c ≤ 'F' then some (c.toNat - 'A'.toNat + 10)
  else none

def isDigit (c : Char) : Bool := (digit? c).isSome

def read? (cs : List Char) : Option Nat :=
  cs.foldl (fun n c => match n, digit? c with
    | some n, some d => some (n * 16 + d)
    | _, _ => none) (some 0)

/-- The number of the first `count` characters, which must be hexadecimal digits. -/
def front? (count : Nat) (cs : List Char) : Option Nat :=
  if (cs.take count).length = count then read? (cs.take count) else none

/-- The character of a code point, if it has one. -/
def char? (n : Nat) : Option Char := if n.isValidChar then some (Char.ofNat n) else none

end Interning.Text.Hex
