import Interning.Toml.Document
import Interning.Toml.Quoted
import Interning.Toml.Scalar

/-!
# Reading TOML documents

A document is a sequence of lines: pairs of a key and a value, and headers of tables.  `readDocument?`
reads the lines, puts the pairs into the sections of their headers, and builds the tables.

    arrays and inline tables nest at most 80 deep
    a key has at most 80 names
-/

namespace Interning.Toml

/-! ### Blanks and line ends -/

/-- The text after the blanks in front. -/
def skipLineSpace (cs : List Char) : List Char := cs.dropWhile isLineSpace

/-- The text after blanks, line ends and comments; `comment` tells whether it starts in one. -/
def skipTrivia (comment : Bool) : List Char → Option (List Char)
  | [] => some []
  | c :: rest =>
    if c = '\n' then skipTrivia false rest
    else if c = '\r' then
      match rest with
      | '\n' :: _ => skipTrivia comment rest
      | _ => none
    else if comment then if isControl c then none else skipTrivia true rest
    else if c = '#' then skipTrivia true rest
    else if isLineSpace c then skipTrivia false rest
    else some (c :: rest)

/-- The text after the end of the line, where nothing but blanks and a comment may stand before it;
`comment` tells whether it starts in one. -/
def skipLine (comment : Bool) : List Char → Option (List Char)
  | [] => some []
  | c :: rest =>
    if c = '\n' then some rest
    else if c = '\r' then
      match rest with
      | '\n' :: rest => some rest
      | _ => none
    else if comment then if isControl c then none else skipLine true rest
    else if c = '#' then skipLine true rest
    else if isLineSpace c then skipLine false rest
    else none

/-! ### Keys -/

/-- Whether `c` may stand in a key without quotes. -/
def isBareChar (c : Char) : Bool := c.isAlphanum || c == '_' || c == '-'

def name? (cs : List Char) : Option (String × List Char) :=
  match shortString? cs with
  | some read => some read
  | none =>
    let (bare, rest) := cs.span isBareChar
    if bare.isEmpty then none else some (String.ofList bare, rest)

/-- Reads a key: names with dots between them. -/
def keyIn : Nat → List Char → Option (List String × List Char)
  | 0, _ => none
  | fuel + 1, cs =>
    match name? (skipLineSpace cs) with
    | none => none
    | some (name, rest) =>
      match skipLineSpace rest with
      | '.' :: rest => (keyIn fuel rest).map fun (names, rest) => (name :: names, rest)
      | rest => some ([name], rest)

def maxNames : Nat := 80

/-- Reads a key; one with too many names is none. -/
def key? (cs : List Char) : Option (List String × List Char) := keyIn maxNames cs

/-- Reads a key and the sign after it, all on one line. -/
def keyAndSign? (cs : List Char) : Option (List String × List Char) :=
  match key? cs with
  | some (key, '=' :: rest) => some (key, skipLineSpace rest)
  | _ => none

/-- Reads a key and the sign after it; the line may end, and comments may stand, on both sides of the
sign. -/
def looseKeyAndSign? (cs : List Char) : Option (List String × List Char) :=
  match key? cs with
  | none => none
  | some (key, rest) =>
    match skipTrivia false rest with
    | some ('=' :: rest) => (skipTrivia false rest).map fun rest => (key, rest)
    | _ => none

/-! ### Values -/

def maxDepth : Nat := 80

mutual

/-- Reads a value in which arrays and inline tables may nest `depth` deep. -/
def valueIn : Nat → Nat → List Char → Option (Toml × List Char)
  | 0, _, _ => none
  | fuel + 1, depth, cs =>
    match cs, depth with
    | '[' :: rest, depth + 1 =>
      (itemsIn fuel depth rest).map fun (items, rest) => (.array items, rest)
    | '\x7b' :: rest, depth + 1 =>
      match pairsIn fuel depth rest with
      | some (pairs, rest) => (inlineTable? pairs).map fun t => (t, rest)
      | none => none
    | cs, _ =>
      match string? cs with
      | some (s, rest) => some (.string s, rest)
      | none =>
        let (token, rest) := spanScalar cs
        (scalar? token).map fun v => (v, rest)

/-- Reads the values of an array and its end. -/
def itemsIn : Nat → Nat → List Char → Option (List Toml × List Char)
  | 0, _, _ => none
  | fuel + 1, depth, cs =>
    match skipTrivia false cs with
    | some (']' :: rest) => some ([], rest)
    | some cs =>
      match valueIn fuel depth cs with
      | none => none
      | some (v, rest) =>
        match skipTrivia false rest with
        | some (',' :: rest) => (itemsIn fuel depth rest).map fun (vs, rest) => (v :: vs, rest)
        | some (']' :: rest) => some ([v], rest)
        | _ => none
    | none => none

/-- Reads the pairs of an inline table and its end. -/
def pairsIn : Nat → Nat → List Char → Option (List (List String × Toml) × List Char)
  | 0, _, _ => none
  | fuel + 1, depth, cs =>
    match skipTrivia false cs with
    | some ('\x7d' :: rest) => some ([], rest)
    | some cs =>
      match looseKeyAndSign? cs with
      | none => none
      | some (key, rest) =>
        match valueIn fuel depth rest with
        | none => none
        | some (v, rest) =>
          match skipTrivia false rest with
          | some (',' :: rest) =>
            (pairsIn fuel depth rest).map fun (ps, rest) => ((key, v) :: ps, rest)
          | some ('\x7d' :: rest) => some ([(key, v)], rest)
          | _ => none
    | none => none

end

/-- Reads a value.  Each step of the recursion that is not the last one of its kind takes a
character, so that twice the length bounds the depth. -/
def value? (cs : List Char) : Option (Toml × List Char) :=
  valueIn (2 * cs.length + 2) maxDepth cs

/-! ### Lines -/

inductive Line
  | pair (key : List String) (v : Toml)
  | header (h : Header)

/-- The text after the mark `c`, blanks in front of it. -/
def afterMark (c : Char) (cs : List Char) : Option (List Char) :=
  match skipLineSpace cs with
  | d :: rest => if d = c then some rest else none
  | [] => none

/-- Reads a line up to its end, but for the comment. -/
def lineBody? (cs : List Char) : Option (Line × List Char) :=
  match cs with
  | '[' :: '[' :: rest =>
    match key? rest with
    | some (key, rest) =>
      match afterMark ']' rest with
      | some (']' :: rest) => some (.header (.arrayItem key), rest)
      | _ => none
    | none => none
  | '[' :: rest =>
    match key? rest with
    | some (key, rest) => (afterMark ']' rest).map fun rest => (.header (.table key), rest)
    | none => none
  | cs =>
    match keyAndSign? cs with
    | some (key, rest) => (value? rest).map fun (v, rest) => (.pair key v, rest)
    | none => none

def linesIn : Nat → List Char → Option (List Line)
  | 0, _ => none
  | fuel + 1, cs =>
    match skipTrivia false cs with
    | none => none
    | some [] => some []
    | some cs =>
      match lineBody? cs with
      | none => none
      | some (line, rest) =>
        match skipLine false rest with
        | some rest => (linesIn fuel rest).map (line :: ·)
        | none => none

/-- Reads the lines of a document; each takes a character, so that the length bounds their number. -/
def lines? (cs : List Char) : Option (List Line) := linesIn (cs.length + 1) cs

/-- Puts the pairs into the sections of the headers before them: those before the first header, and
the sections in order. -/
def sectioned : List Line → List (List String × Toml) × List Section
  | [] => ([], [])
  | .pair key v :: rest =>
    let (pairs, sections) := sectioned rest
    ((key, v) :: pairs, sections)
  | .header h :: rest =>
    let (pairs, sections) := sectioned rest
    ([], ⟨h, pairs⟩ :: sections)

/-- Reads a document: the entries of its root.  A byte order mark in front does not count. -/
def readDocument? (s : String) : Option (List (String × Toml)) :=
  let cs := match s.toList with
    | '\ufeff' :: rest => rest
    | cs => cs
  match lines? cs with
  | some lines =>
    let (pairs, sections) := sectioned lines
    buildDocument pairs sections
  | none => none

end Interning.Toml
