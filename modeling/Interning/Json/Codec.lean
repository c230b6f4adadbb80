import Interning.Json.Record
import Interning.Layout

/-!
# Records as JSON objects

A field is a member of an object.  The values are those of the record's layout, and every field has a
default.
-/

namespace Interning

/-! ## Algorithm -/

def Scalar.toJson : Scalar → Json
  | .name s => .string s
  | .flag b => .bool b
  | .word n => .word n

/-- Reads a value that the field may have, as what it changes in the record. -/
def Layout.Kind.reader {α : Type} : Kind α → Json.Reader (α → α)
  | .choice names => Json.variant names
  | .flag set => Json.Reader.map set Json.bool?
  | .word set => Json.Reader.map set Json.word?

def Layout.toRecord {α : Type} (l : Layout α) : Json.Record α :=
  ⟨l.defaults, l.fields.map fun f => ⟨f.name, f.kind.reader, false⟩⟩

namespace Json

def ofEntries (entries : List (String × Scalar)) : Json :=
  .object (entries.map fun e => (e.1, e.2.toJson))

def entryText (entries : List (String × Scalar)) : String := (ofEntries entries).compact

def codec : Codec where
  read l text := (readAll l.toRecord.read text).toOption
  write := entryText

end Json

end Interning
