import Interning.Text.Hex

/-!
# Quoted strings of TOML

Basic strings stand between quotes and have escapes, literal strings stand between apostrophes and
have none.  Both exist on one line and, between three marks, on several.  Each function reads the
rest of a string after its opening mark; a number in front tells how many of the next characters
belong to something that has been read.
-/

namespace Interning.Toml

/-- Whether `c` is a control character, which may stand nowhere in a document. -/
def isControl (c : Char) : Bool := (c.toNat < 0x20 && c != '\t') || c.toNat == 0x7F

/-- The character of an escape, given the text after its backslash, and the number of characters
that the escape takes there. -/
def escape? : List Char → Option (Char × Nat)
  | [] => none
  | c :: rest =>
    let hex (count : Nat) : Option (Char × Nat) :=
      ((Text.Hex.front? count rest).bind Text.Hex.char?).map fun c => (c, count + 1)
    if c = 'x' then hex 2
    else if c = 'u' then hex 4
    else if c = 'U' then hex 8
    else
      ([('b', '\x08'), ('t', '\t'), ('n', '\n'), ('f', '\x0c'), ('r', '\r'), ('e', '\x1b'),
        ('"', '"'), ('\\', '\\')].lookup c).map fun c => (c, 1)

def consRead (c : Char) (read : Option (List Char × List Char)) :
    Option (List Char × List Char) :=
  read.map fun (s, rest) => (c :: s, rest)

/-- Reads a basic string on one line. -/
def basicTail : Nat → List Char → Option (List Char × List Char)
  | _, [] => none
  | taken + 1, _ :: rest => basicTail taken rest
  | 0, c :: rest =>
    if c = '"' then some ([], rest)
    else if c = '\\' then
      match escape? rest with
      | some (d, taken) => consRead d (basicTail taken rest)
      | none => none
    else if isControl c then none
    else consRead c (basicTail 0 rest)

def literalTail : List Char → Option (List Char × List Char)
  | [] => none
  | c :: rest =>
    if c = '\'' then some ([], rest)
    else if isControl c then none
    else consRead c (literalTail rest)

/-- The number of characters of the line end in front, if there is one. -/
def lineEndLength : List Char → Option Nat
  | '\n' :: _ => some 1
  | '\r' :: '\n' :: _ => some 2
  | _ => none

/-- Whether `c` may stand between two words of a line. -/
def isLineSpace (c : Char) : Bool := c == ' ' || c == '\t'

/-- The number of blanks and line ends in front. -/
def spaceLength : List Char → Nat
  | [] => 0
  | c :: rest =>
    if isLineSpace c || c == '\n' || (c == '\r' && rest.head? == some '\n') then
      spaceLength rest + 1
    else 0

/-- The number of characters that a backslash at the end of a line takes: the blanks after it, the
line end, and all blanks and line ends that follow. -/
def continuationLength? (cs : List Char) : Option Nat :=
  let blanks := (cs.takeWhile isLineSpace).length
  match lineEndLength (cs.drop blanks) with
  | some _ => some (spaceLength cs)
  | none => none

/-- The end of a string between three marks `q`, given the text after the first mark met: how many
marks belong to the content, and the rest.  Up to two of them may stand before the closing three. -/
def closing? (q : Char) (cs : List Char) : Option (Nat × List Char) :=
  let more := (cs.takeWhile (· == q)).length
  if 2 ≤ more ∧ more ≤ 4 then some (more - 2, cs.drop more) else none

/-- Reads a string on several lines between three marks `q`, with escapes or without. -/
def blockTail (q : Char) (escapes : Bool) : Nat → List Char → Option (List Char × List Char)
  | _, [] => none
  | taken + 1, _ :: rest => blockTail q escapes taken rest
  | 0, c :: rest =>
    if c = q then
      match closing? q rest with
      | some (inside, rest) => some (List.replicate inside q, rest)
      | none => if rest.take 2 = [q, q] then none else consRead c (blockTail q escapes 0 rest)
    else if c = '\\' ∧ escapes then
      match escape? rest, continuationLength? rest with
      | some (d, taken), _ => consRead d (blockTail q escapes taken rest)
      | none, some taken => blockTail q escapes taken rest
      | none, none => none
    else if c = '\n' then consRead c (blockTail q escapes 0 rest)
    else if c = '\r' then
      match rest with
      | '\n' :: _ => blockTail q escapes 0 rest
      | _ => none
    else if isControl c then none
    else consRead c (blockTail q escapes 0 rest)

/-- Reads a string on several lines; a line end right after the opening marks does not count. -/
def block (q : Char) (escapes : Bool) (cs : List Char) : Option (List Char × List Char) :=
  blockTail q escapes ((lineEndLength cs).getD 0) cs

/-- Reads a string that may stand in a key. -/
def shortString? : List Char → Option (String × List Char)
  | '"' :: rest => (basicTail 0 rest).map fun (s, rest) => (String.ofList s, rest)
  | '\'' :: rest => (literalTail rest).map fun (s, rest) => (String.ofList s, rest)
  | _ => none

/-- Reads a string that may be a value. -/
def string? (cs : List Char) : Option (String × List Char) :=
  match cs with
  | '"' :: '"' :: '"' :: rest => (block '"' true rest).map fun (s, rest) => (String.ofList s, rest)
  | '\'' :: '\'' :: '\'' :: rest =>
    (block '\'' false rest).map fun (s, rest) => (String.ofList s, rest)
  | _ => shortString? cs

end Interning.Toml
