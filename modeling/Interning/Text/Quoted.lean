import Interning.Text.DefaultIgnorable
import Interning.Text.GraphemeExtend
import Interning.Text.Unprintable

/-!
# Quoted texts

A text between quotes, every character of it visible.  Quotes, backslashes, NUL, tabs and line ends
have short escapes; the other characters that cannot be seen, or that would join the one before
them, are written as their code point in hexadecimal.
-/

namespace Interning.Text

/-- Whether `c` is one of the halfwidth sound marks, which have a place of their own although they
extend a grapheme. -/
def isHalfwidthSoundMark (c : Char) : Bool := c == '\uFF9E' || c == '\uFF9F'

/-- Whether `c` cannot be told from its looks in a quoted text. -/
def isHidden (c : Char) : Bool :=
  isUnprintable c || isDefaultIgnorable c || (isGraphemeExtend c && !isHalfwidthSoundMark c)

/-- The characters that stand for `c` in a quoted text. -/
def visible (c : Char) : List Char :=
  if c = '\x00' then ['\\', '0']
  else if c = '\t' then ['\\', 't']
  else if c = '\r' then ['\\', 'r']
  else if c = '\n' then ['\\', 'n']
  else if c = '"' ∨ c = '\\' then ['\\', c]
  else if isHidden c then
    ['\\', 'u', '\x7b'] ++ Nat.toDigits 16 c.toNat ++ ['\x7d']
  else [c]

def quote (s : String) : String := String.ofList ('"' :: s.toList.flatMap visible ++ ['"'])

end Interning.Text
