/-!
# Layouts of records

Formats differ in how they write a record, but not in what they write of it: values of some of its
fields, each with the name of the field.  A `Layout` tells the fields, which values each of them may
have, and the record of the defaults.  A `Codec` is a format with its reader and its writer, which
know of a record nothing but the layout.
-/

namespace Interning

/-- A value of a field. -/
inductive Scalar
  | name (s : String)
  | flag (b : Bool)
  | word (n : UInt64)
  deriving DecidableEq, Repr

namespace Layout

/-- Which values a field may have, and what each of them changes in the record. -/
inductive Kind (α : Type)
  /-- A name, one of those listed. -/
  | choice (names : List (String × (α → α)))
  | flag (set : Bool → α → α)
  | word (set : UInt64 → α → α)

structure Field (α : Type) where
  name : String
  kind : Kind α

end Layout

structure Layout (α : Type) where
  /-- The record with none of its fields given. -/
  defaults : α
  fields : List (Layout.Field α)
  distinct : (fields.map Layout.Field.name).Nodup

/-- A format of texts. -/
structure Codec where
  /-- Reads a record; a field that the text does not give keeps its default. -/
  read : {α : Type} → Layout α → String → Option α
  /-- Writes values with their names, in order. -/
  write : List (String × Scalar) → String

end Interning
