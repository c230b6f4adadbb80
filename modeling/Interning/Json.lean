import Interning.Text.Decimal

/-!
# JSON values and their compact text

`Json.chars` writes a value without blanks.  In a string, quotes, backslashes and the control
characters below U+0020 are escaped, and nothing else is.

    the object members keep their order
-/

namespace Interning

/-- A JSON value whose numbers are integers. -/
inductive Json
  | null
  | bool (b : Bool)
  | number (n : Int)
  | string (s : String)
  | array (items : List Json)
  | object (members : List (String × Json))
  deriving Repr, Inhabited

namespace Json

def word (n : UInt64) : Json := number n.toNat

/-- The characters that stand for `c` inside a string. -/
def escaped (c : Char) : List Char :=
  if c = '"' then ['\\', '"']
  else if c = '\\' then ['\\', '\\']
  else if c = '\x08' then ['\\', 'b']
  else if c = '\x09' then ['\\', 't']
  else if c = '\x0a' then ['\\', 'n']
  else if c = '\x0c' then ['\\', 'f']
  else if c = '\x0d' then ['\\', 'r']
  else if c.toNat < 0x10 then ['\\', 'u', '0', '0', '0'] ++ Nat.toDigits 16 c.toNat
  else if c.toNat < 0x20 then ['\\', 'u', '0', '0'] ++ Nat.toDigits 16 c.toNat
  else [c]

def quoted (s : String) : List Char := '"' :: s.toList.flatMap escaped ++ ['"']

def boolChars (b : Bool) : List Char := if b then ['t', 'r', 'u', 'e'] else ['f', 'a', 'l', 's', 'e']

def numberChars (n : Int) : List Char :=
  if n < 0 then '-' :: Text.Decimal.write n.natAbs else Text.Decimal.write n.natAbs

mutual

/-- The compact text of a value. -/
def chars : Json → List Char
  | null => ['n', 'u', 'l', 'l']
  | bool b => boolChars b
  | number n => numberChars n
  | string s => quoted s
  | array items => '[' :: itemChars items ++ [']']
  | object members => '\x7b' :: memberChars members ++ ['\x7d']

def itemChars : List Json → List Char
  | [] => []
  | [x] => x.chars
  | x :: y :: rest => x.chars ++ ',' :: itemChars (y :: rest)

def memberChars : List (String × Json) → List Char
  | [] => []
  | [(k, x)] => quoted k ++ ':' :: x.chars
  | (k, x) :: m :: rest => quoted k ++ ':' :: x.chars ++ ',' :: memberChars (m :: rest)

end

def compact (j : Json) : String := String.ofList j.chars

end Json

end Interning
