import Interning.KeyMap

/-!
# Edits of a map with a saved copy

A sequence of look-ups and edits of a map that can be saved once and restored later.  A saved copy
is a value of its own: edits after it do not reach it.
-/

namespace Interning.KeyMap

variable {κ α : Type}

/-- A map, and the copy that was saved if there is one. -/
structure Draft (κ α : Type) where
  current : KeyMap κ α := ∅
  saved : Option (KeyMap κ α) := none

/-- A look-up or an edit. -/
inductive Edit (κ α : Type)
  | insert (k : κ) (v : α)
  | erase (k : κ)
  | get (k : κ)
  | getEntry (k : κ)
  /-- Saves a copy in place of the one saved before. -/
  | save
  /-- Makes the saved copy the map; it is not saved any more then. -/
  | restore
  deriving Repr

inductive Found (κ α : Type)
  | nothing
  | value (v : α)
  | entry (k : κ) (v : α)
  deriving Repr

/-- The answer for a value that may be missing. -/
def Found.ofOption : Option α → Found κ α
  | some v => value v
  | none => nothing

namespace Draft

variable [DecidableEq κ]

/-- Does an edit; what was under the key before is the answer to an edit of it. -/
def edit (d : Draft κ α) : Edit κ α → Found κ α × Draft κ α
  | .insert k v => (.ofOption (d.current.get? k), { d with current := d.current.insert k v })
  | .erase k => (.ofOption (d.current.get? k), { d with current := d.current.erase k })
  | .get k => (.ofOption (d.current.get? k), d)
  | .getEntry k =>
    match d.current.get? k with
    | some v => (.entry k v, d)
    | none => (.nothing, d)
  | .save => (.nothing, { d with saved := some d.current })
  | .restore =>
    match d.saved with
    | some m => (.nothing, ⟨m, none⟩)
    | none => (.nothing, d)

/-- Does edits in order: the answer to each, and the map after it. -/
def edits (d : Draft κ α) : List (Edit κ α) → List (Found κ α × KeyMap κ α)
  | [] => []
  | e :: rest =>
    let (found, d) := d.edit e
    (found, d.current) :: d.edits rest

end Draft

end Interning.KeyMap
