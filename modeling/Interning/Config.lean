import Interning.Mode
import Interning.Normalizer

/-!
# Configurations

The settings of an interner, read once when it is made.
-/

namespace Interning

/-- Settings for an interner. -/
structure Config where
  /-- The mode asked for. -/
  mode : Mode := .auto
  /-- The number of entries to make room for. -/
  initialCapacity : UInt64 := 256
  /-- Whether the bytes of the table count in the tracker of the process. -/
  trackMemory : Bool := false
  /-- How values become keys. -/
  normalization : Normalization := .verbatim
  deriving DecidableEq, Repr, Inhabited

inductive Setting
  | mode
  | initialCapacity
  | trackMemory
  | normalization
  deriving DecidableEq, Repr

def Setting.name : Setting → String
  | mode => "mode"
  | initialCapacity => "initial_capacity"
  | trackMemory => "track_memory"
  | normalization => "normalization"

/-- All settings, in the order they are written. -/
def Setting.all : List Setting := [mode, initialCapacity, trackMemory, normalization]

namespace Config

/-- The greatest capacity a table may be made for. -/
def maxInitialCapacity : UInt64 := 16777216

/-- Accepts a configuration that an interner can be made of. -/
def validate (c : Config) : Except Error Unit :=
  if maxInitialCapacity < c.initialCapacity then
    .error (.capacityTooLarge c.initialCapacity maxInitialCapacity)
  else .ok ()

/-- The configuration itself, when it is accepted. -/
def checked (c : Config) : Except Error Config := c.validate.map fun _ => c

theorem validate_eq_ok_iff {c : Config} :
    c.validate = .ok () ↔ c.initialCapacity ≤ maxInitialCapacity := by
  rw [validate]
  split
  · next h => simpa using UInt64.not_le.2 h
  · next h => simpa using UInt64.not_lt.1 h

end Config

end Interning
