import Interning.Text.Decimal
import Interning.Text.Hex
import Interning.Toml

/-!
# Unquoted values

Truth values, numbers and dates stand in a document without quotes.  `scalar?` reads the characters
of one of them.

    integers from -2 ^ 127 up to 2 ^ 128 - 1 have a value, and floats below the end of the doubles
-/

namespace Interning.Toml

/-! ### Integers -/

/-- Takes the underscores out of a numeral; each of them must stand between two digits. -/
def joined? (isDigit : Char → Bool) : List Char → Option (List Char)
  | [] => none
  | [c] => if isDigit c then some [c] else none
  | c :: d :: rest =>
    if !isDigit c then none
    else if d = '_' then (joined? isDigit rest).map (c :: ·)
    else (joined? isDigit (d :: rest)).map (c :: ·)

/-- Whether an integer has a place among the integers that can be read. -/
def inRange (n : Int) : Bool := -(Nat.pow 2 127 : Nat) ≤ n && n < (Nat.pow 2 128 : Nat)

def isDecimalChar (c : Char) : Bool := c.isDigit || c == '_'

/-- The number of a numeral of the base 2, 8 or 16, after the letter of the base. -/
def based? (base : Nat) (cs : List Char) : Option Nat :=
  let isDigit (c : Char) : Bool := (Text.Hex.digit? c).any (· < base)
  (joined? isDigit cs).map fun ds =>
    ds.foldl (fun n c => n * base + (Text.Hex.digit? c).getD 0) 0

/-- The digits of a decimal numeral; a zero in front stands alone. -/
def decimal? (cs : List Char) : Option (List Char) :=
  match joined? Char.isDigit cs with
  | some ('0' :: _ :: _) => none
  | ds => ds

/-- Splits the sign off a numeral: whether it is a minus, and the rest. -/
def splitSign : List Char → Bool × List Char
  | '-' :: rest => (true, rest)
  | '+' :: rest => (false, rest)
  | cs => (false, cs)

/-- The integer of a numeral with its sign apart, if it can be read. -/
def signed? (negative : Bool) (n : Nat) : Option Toml :=
  let n : Int := if negative then -(n : Int) else n
  if inRange n then some (integer n) else none

/-! ### Floats -/

/-- The least number that is nearer to the number after the greatest double than to it. -/
def floatLimit : Nat := Nat.pow 2 1024 - Nat.pow 2 970

/-- Whether `n * 10 ^ exponent` is beyond the doubles.  The number of digits settles it, but for the
numbers near the limit, which has 309 digits. -/
def overflows (n : Nat) (exponent : Int) : Bool :=
  let places := (Text.Decimal.write n).length + exponent
  if n = 0 then false
  else if places < 309 then false
  else if 309 < places then true
  else if 0 ≤ exponent then floatLimit ≤ n * Nat.pow 10 exponent.toNat
  else floatLimit * Nat.pow 10 (-exponent).toNat ≤ n

/-- The digits of the exponent of a float, with its sign apart; zero if there is none. -/
def exponent? : List Char → Option Int
  | [] => some 0
  | c :: rest =>
    if c = 'e' ∨ c = 'E' then
      let (negative, ds) := splitSign rest
      (joined? Char.isDigit ds).map fun ds =>
        let n := Nat.ofDigitChars 10 ds 0
        if negative then -(n : Int) else n
    else none

/-- Whether a float, given its whole digits and what follows them, is well written and finite. -/
def isFloat (whole rest : List Char) : Bool :=
  let (fraction, rest) := match rest with
    | '.' :: rest =>
      let (ds, rest) := rest.span isDecimalChar
      (joined? Char.isDigit ds, rest)
    | _ => (some [], rest)
  match fraction, exponent? rest with
  | some fraction, some exponent =>
    !overflows (Nat.ofDigitChars 10 (whole ++ fraction) 0) (exponent - fraction.length)
  | _, _ => false

def number? (cs : List Char) : Option Toml :=
  let (negative, body) := splitSign cs
  let float := Toml.float (String.ofList cs)
  if body = ['i', 'n', 'f'] ∨ body = ['n', 'a', 'n'] then some float
  else
    let (whole, rest) := body.span isDecimalChar
    match decimal? whole with
    | none => none
    | some ds =>
      if rest.isEmpty then signed? negative (Nat.ofDigitChars 10 ds 0)
      else if isFloat ds rest then some float
      else none

/-! ### Dates -/

def pair? (a b : Char) : Option Nat :=
  if a.isDigit && b.isDigit then some (Nat.ofDigitChars 10 [a, b] 0) else none

def daysOf (year month : Nat) : Nat :=
  if month = 2 then
    if year % 4 = 0 ∧ (year % 100 ≠ 0 ∨ year % 400 = 0) then 29 else 28
  else if month = 4 ∨ month = 6 ∨ month = 9 ∨ month = 11 then 30
  else 31

def afterDate? : List Char → Option (List Char)
  | y :: e :: a :: r :: '-' :: m :: o :: '-' :: d :: f :: rest =>
    match pair? y e, pair? a r, pair? m o, pair? d f with
    | some century, some year, some month, some day =>
      if 1 ≤ month ∧ month ≤ 12 ∧ 1 ≤ day ∧ day ≤ daysOf (century * 100 + year) month then
        some rest
      else none
    | _, _, _, _ => none
  | _ => none

def afterMinutes? (maxHour : Nat) : List Char → Option (List Char)
  | h :: o :: ':' :: m :: i :: rest =>
    match pair? h o, pair? m i with
    | some hour, some minute => if hour ≤ maxHour ∧ minute ≤ 59 then some rest else none
    | _, _ => none
  | _ => none

/-- The text after seconds and their fraction, if there are any; a leap second may be counted. -/
def afterSeconds? : List Char → Option (List Char)
  | ':' :: s :: e :: rest =>
    match pair? s e with
    | some second =>
      if 60 < second then none
      else
        match rest with
        | '.' :: rest =>
          let (ds, rest) := rest.span Char.isDigit
          if ds.isEmpty then none else some rest
        | _ => some rest
    | none => none
  | ':' :: _ => none
  | cs => some cs

def afterTime? (cs : List Char) : Option (List Char) := (afterMinutes? 23 cs).bind afterSeconds?

/-- Whether the text is an offset from universal time, or empty. -/
def isOffset : List Char → Bool
  | [] => true
  | ['Z'] | ['z'] => true
  | '+' :: rest | '-' :: rest => afterMinutes? 23 rest == some []
  | _ => false

def isTimeMark (c : Char) : Bool := c == 'T' || c == 't' || c == ' '

/-- Whether the text is a date, a time of day, or both. -/
def isDatetime (cs : List Char) : Bool :=
  match afterDate? cs with
  | some [] => true
  | some (c :: rest) =>
    match afterTime? rest with
    | some rest => isTimeMark c && isOffset rest
    | none => false
  | none => afterTime? cs == some []

/-! ### All of them -/

def scalar? (cs : List Char) : Option Toml :=
  if cs = ['t', 'r', 'u', 'e'] then some (boolean true)
  else if cs = ['f', 'a', 'l', 's', 'e'] then some (boolean false)
  else
    match cs with
    | '0' :: 'x' :: ds => (based? 16 ds).bind (signed? false)
    | '0' :: 'o' :: ds => (based? 8 ds).bind (signed? false)
    | '0' :: 'b' :: ds => (based? 2 ds).bind (signed? false)
    | _ => if isDatetime cs then some (datetime (String.ofList cs)) else number? cs

def isScalarChar (c : Char) : Bool :=
  c.isAlphanum || c == '_' || c == '+' || c == '-' || c == '.' || c == ':'

/-- Splits off the characters of an unquoted value.  A blank belongs to it when it stands between a
date and a digit. -/
def spanScalar (cs : List Char) : List Char × List Char :=
  let (token, rest) := cs.span isScalarChar
  match rest with
  | ' ' :: d :: _ =>
    if d.isDigit && afterDate? token == some [] then
      let (time, rest) := (rest.drop 1).span isScalarChar
      (token ++ ' ' :: time, rest)
    else (token, rest)
  | _ => (token, rest)

end Interning.Toml
