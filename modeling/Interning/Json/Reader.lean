import Interning.Error
import Interning.Json
import Interning.Text.Hex

/-!
# Reading JSON text

A `Reader` takes a value of a known type off the front of a text.  A value that nobody asked for is
passed over by `skipValue`, which checks the grammar alone: numbers may have any size there, and the
escapes of a string need not make a text.

    (blanks in front of a value are always passed over)
-/

namespace Interning.Json

/-! ## Algorithm -/

/-- Takes a value off the front of a text; nothing if there is none. -/
abbrev Reader (α : Type) := List Char → Option (α × List Char)

/-- A reader whose values go through `f`. -/
def Reader.map {α β : Type} (f : α → β) (r : Reader α) : Reader β := fun cs =>
  match r cs with
  | some (a, rest) => some (f a, rest)
  | none => none

/-- Whether `c` may stand between any two tokens. -/
def isSpace (c : Char) : Bool := c = ' ' || c = '\t' || c = '\n' || c = '\r'

/-- The text from the next token on. -/
def skipSpace (cs : List Char) : List Char := cs.dropWhile isSpace

/-- The text after the mark `c`, which must be the next token. -/
def mark (c : Char) (cs : List Char) : Option (List Char) :=
  match skipSpace cs with
  | d :: rest => if d = c then some rest else none
  | [] => none

/-- The text after the letters of `word`. -/
def letters : List Char → List Char → Option (List Char)
  | [], cs => some cs
  | w :: ws, c :: cs => if w = c then letters ws cs else none
  | _ :: _, [] => none

/-! ### Strings -/

/-- The character that a short escape stands for. -/
def shortEscape? (c : Char) : Option Char :=
  [('"', '"'), ('\\', '\\'), ('/', '/'), ('b', '\x08'), ('f', '\x0c'), ('n', '\n'), ('r', '\r'),
   ('t', '\t')].lookup c

/-- The character of an escape, given the text after its backslash, and the number of characters
that the escape takes there.  Two escapes in a row stand for one character outside the first plane. -/
def escape? : List Char → Option (Char × Nat)
  | [] => none
  | 'u' :: rest =>
    match Text.Hex.front? 4 rest with
    | none => none
    | some high =>
      if high < 0xD800 ∨ 0xDFFF < high then some (Char.ofNat high, 5)
      else
        match rest.drop 4 with
        | '\\' :: 'u' :: rest =>
          match Text.Hex.front? 4 rest with
          | none => none
          | some low =>
            if high ≤ 0xDBFF ∧ 0xDC00 ≤ low ∧ low ≤ 0xDFFF then
              some (Char.ofNat (0x10000 + (high - 0xD800) * 0x400 + (low - 0xDC00)), 11)
            else none
        | _ => none
  | c :: _ => (shortEscape? c).map fun c => (c, 1)

/-- The number of characters that an escape takes, whatever it stands for. -/
def escapeLength? : List Char → Option Nat
  | [] => none
  | 'u' :: rest => (Text.Hex.front? 4 rest).map fun _ => 5
  | c :: _ => (shortEscape? c).map fun _ => 1

/-- Reads the rest of a string, after its opening quote; the first `taken` characters belong to an
escape that has been read. -/
def stringTail : Nat → List Char → Option (List Char × List Char)
  | _, [] => none
  | taken + 1, _ :: rest => stringTail taken rest
  | 0, c :: rest =>
    if c = '"' then some ([], rest)
    else if c = '\\' then
      match escape? rest with
      | some (d, taken) => (stringTail taken rest).map fun (s, rest) => (d :: s, rest)
      | none => none
    else if c.toNat < 0x20 then none
    else (stringTail 0 rest).map fun (s, rest) => (c :: s, rest)

def string? : Reader String := fun cs =>
  match mark '"' cs with
  | some rest => (stringTail 0 rest).map fun (s, rest) => (String.ofList s, rest)
  | none => none

/-- Passes over the rest of a string, after its opening quote; the first `taken` characters belong
to an escape that has been seen. -/
def skipString : Nat → List Char → Option (List Char)
  | _, [] => none
  | taken + 1, _ :: rest => skipString taken rest
  | 0, c :: rest =>
    if c = '"' then some rest
    else if c = '\\' then
      match escapeLength? rest with
      | some taken => skipString taken rest
      | none => none
    else if c.toNat < 0x20 then none
    else skipString 0 rest

/-! ### Numbers and words -/

/-- Splits off the digits in front. -/
def digits (cs : List Char) : List Char × List Char := cs.span Char.isDigit

/-- Splits off the digits of a number without sign; a zero in front stands alone. -/
def wholeDigits (cs : List Char) : Option (List Char × List Char) :=
  match digits cs with
  | ([], _) => none
  | ('0' :: _ :: _, _) => none
  | (ds, rest) => some (ds, rest)

/-- Reads a number without sign, fraction and exponent that fits into a word. -/
def word? : Reader UInt64 := fun cs =>
  match wholeDigits (skipSpace cs) with
  | some (ds, rest) =>
    let n := Nat.ofDigitChars 10 ds 0
    if n < UInt64.size then some (.ofNat n, rest) else none
  | none => none

def skipFraction (cs : List Char) : Option (List Char) :=
  match cs with
  | '.' :: rest =>
    match digits rest with
    | ([], _) => none
    | (_, rest) => some rest
  | _ => some cs

def skipExponent (cs : List Char) : Option (List Char) :=
  let afterSign : List Char → List Char
    | '+' :: rest => rest
    | '-' :: rest => rest
    | rest => rest
  match cs with
  | c :: rest =>
    if c = 'e' ∨ c = 'E' then
      match digits (afterSign rest) with
      | ([], _) => none
      | (_, rest) => some rest
    else some cs
  | [] => some []

def skipNumber (cs : List Char) : Option (List Char) :=
  let unsigned := match cs with
    | '-' :: rest => rest
    | _ => cs
  match wholeDigits unsigned with
  | some (_, rest) => (skipFraction rest).bind skipExponent
  | none => none

def bool? : Reader Bool := fun cs =>
  let cs := skipSpace cs
  match letters ['t', 'r', 'u', 'e'] cs with
  | some rest => some (true, rest)
  | none => (letters ['f', 'a', 'l', 's', 'e'] cs).map fun rest => (false, rest)

/-- Passes over the word for no value. -/
def null? (cs : List Char) : Option (List Char) := letters ['n', 'u', 'l', 'l'] (skipSpace cs)

/-! ### Values nobody asked for -/

mutual

def skipValueIn : Nat → List Char → Option (List Char)
  | 0, _ => none
  | fuel + 1, cs =>
    match skipSpace cs with
    | '"' :: rest => skipString 0 rest
    | '[' :: rest =>
      match mark ']' rest with
      | some rest => some rest
      | none => skipItemsIn fuel rest
    | '\x7b' :: rest =>
      match mark '\x7d' rest with
      | some rest => some rest
      | none => skipMembersIn fuel rest
    | cs =>
      match bool? cs, null? cs with
      | some (_, rest), _ => some rest
      | none, some rest => some rest
      | none, none => skipNumber cs

/-- Passes over the values of an array and its end. -/
def skipItemsIn : Nat → List Char → Option (List Char)
  | 0, _ => none
  | fuel + 1, cs =>
    match skipValueIn fuel cs with
    | none => none
    | some rest =>
      match mark ',' rest with
      | some rest => skipItemsIn fuel rest
      | none => mark ']' rest

/-- Passes over the members of an object and its end. -/
def skipMembersIn : Nat → List Char → Option (List Char)
  | 0, _ => none
  | fuel + 1, cs =>
    match ((mark '"' cs).bind (skipString 0)).bind (mark ':') with
    | none => none
    | some rest =>
      match skipValueIn fuel rest with
      | none => none
      | some rest =>
        match mark ',' rest with
        | some rest => skipMembersIn fuel rest
        | none => mark '\x7d' rest

end

/-- Passes over a value.  Each step of the recursion that is not the last one of its kind takes a
character, so that twice the length bounds the depth. -/
def skipValue (cs : List Char) : Option (List Char) := skipValueIn (2 * cs.length + 2) cs

/-- Reads a whole text as one value. -/
def readAll {α : Type} (r : Reader α) (s : String) : Except Error α :=
  match r s.toList with
  | some (a, rest) => if (skipSpace rest).isEmpty then .ok a else .error .malformedJson
  | none => .error .malformedJson

end Interning.Json
