import Interning.Json.Reader

/-!
# Records and variants in JSON

A record is written as an object or as the array of its values.  In an object the fields stand in
any order, each at most once, and members of other names are passed over; in an array they stand in
the order of the record, and the last ones may be missing.  A field that is missing keeps its
default, or makes the text unacceptable when it has none.

A variant is written as its name, or as an object whose only member has that name and no value.
-/

namespace Interning.Json

structure Field (α : Type) where
  name : String
  /-- Reads the value and puts it into a record. -/
  read : Reader (α → α)
  /-- Whether the field has no default. -/
  required : Bool

/-- The fields of a record, and the record of the defaults. -/
structure Record (α : Type) where
  defaults : α
  fields : List (Field α)

namespace Record

variable {α : Type}

/-- Reads the members of an object from the first name on, those named in `seen` being read. -/
def readMembers (r : Record α) : Nat → List String → α → Reader (List String × α)
  | 0, _, _, _ => none
  | fuel + 1, seen, a, cs =>
    match string? cs with
    | none => none
    | some (name, rest) =>
      match mark ':' rest with
      | none => none
      | some rest =>
        let next := match r.fields.find? (·.name == name) with
          | some f =>
            if seen.contains name then none
            else (f.read rest).map fun (set, rest) => ((name :: seen, set a), rest)
          | none => (skipValue rest).map fun rest => ((seen, a), rest)
        match next with
        | none => none
        | some ((seen, a), rest) =>
          match mark ',' rest with
          | some rest => readMembers r fuel seen a rest
          | none => (mark '\x7d' rest).map fun rest => ((seen, a), rest)

/-- Reads an object, after its opening brace. -/
def readObject (r : Record α) : Reader α := fun cs =>
  let members := match mark '\x7d' cs with
    | some rest => some (([], r.defaults), rest)
    | none => r.readMembers cs.length [] r.defaults cs
  match members with
  | none => none
  | some ((seen, a), rest) =>
    if r.fields.all fun f => !f.required || seen.contains f.name then some (a, rest) else none

/-- Reads the values of an array from the first one on, for the fields that are left. -/
def readItems : List (Field α) → α → Reader α
  | [], _, _ => none
  | f :: fs, a, cs =>
    match f.read cs with
    | none => none
    | some (set, rest) =>
      match mark ',' rest with
      | some rest => readItems fs (set a) rest
      | none =>
        match mark ']' rest with
        | some rest => if fs.any (·.required) then none else some (set a, rest)
        | none => none

/-- Reads an array, after its opening bracket. -/
def readArray (r : Record α) : Reader α := fun cs =>
  match mark ']' cs with
  | some rest => if r.fields.any (·.required) then none else some (r.defaults, rest)
  | none => readItems r.fields r.defaults cs

def read (r : Record α) : Reader α := fun cs =>
  match mark '\x7b' cs with
  | some rest => r.readObject rest
  | none =>
    match mark '[' cs with
    | some rest => r.readArray rest
    | none => none

end Record

/-- Reads a variant, given the name of each. -/
def variant {α : Type} (names : List (String × α)) : Reader α := fun cs =>
  match mark '\x7b' cs with
  | some rest =>
    match string? rest with
    | some (name, rest) =>
      match names.lookup name, ((mark ':' rest).bind null?).bind (mark '\x7d') with
      | some a, some rest => some (a, rest)
      | _, _ => none
    | none => none
  | none =>
    match string? cs with
    | some (name, rest) => (names.lookup name).map fun a => (a, rest)
    | none => none

end Interning.Json
