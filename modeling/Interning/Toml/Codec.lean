import Interning.Layout
import Interning.Toml.Reader

/-!
# Records as TOML documents

A field is an entry at the root of a document.  Entries of other names do not count.  A choice is
written as its name, or as a table whose only entry has that name and is empty itself.
-/

namespace Interning

/-! ## Algorithm -/

namespace Toml

/-- The choice that a value stands for, given the name of each. -/
def choice? {α : Type} (names : List (String × α)) : Toml → Option α
  | .string s => names.lookup s
  | .table [(s, .table [])] => names.lookup s
  | .table [(s, .array [])] => names.lookup s
  | _ => none

def word? : Toml → Option UInt64
  | .integer n => if 0 ≤ n ∧ n < UInt64.size then some (.ofNat n.toNat) else none
  | _ => none

def boolean? : Toml → Option Bool
  | .boolean b => some b
  | _ => none

end Toml

/-- What a value of a document changes in a record, if the field may have it. -/
def Layout.Kind.ofToml? {α : Type} : Kind α → Toml → Option (α → α)
  | .choice names, v => v.choice? names
  | .flag set, v => v.boolean?.map set
  | .word set, v => v.word?.map set

def Scalar.tomlChars : Scalar → List Char
  | .name s => '"' :: s.toList ++ ['"']
  | .flag b => (if b then "true" else "false").toList
  | .word n => Text.Decimal.write n.toNat

namespace Toml

/-- The record with the fields that the entries give, one entry after the other. -/
def fill? {α : Type} (l : Layout α) (entries : List (String × Toml)) : Option α :=
  entries.foldlM (fun a e =>
    match l.fields.find? (·.name == e.1) with
    | some f => (f.kind.ofToml? e.2).map fun set => set a
    | none => some a) l.defaults

def entryLine (e : String × Scalar) : List Char :=
  e.1.toList ++ " = ".toList ++ e.2.tomlChars ++ ['\n']

def entryText (entries : List (String × Scalar)) : String :=
  String.ofList (entries.flatMap entryLine)

def codec : Codec where
  read l text := (readDocument? text).bind (fill? l)
  write := entryText

end Toml

end Interning
