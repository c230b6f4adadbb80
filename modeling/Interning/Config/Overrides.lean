import Interning.Config
import Interning.Event

/-!
# Overrides from the environment

Four variables override the settings of a configuration.  They are asked for one after the other,
and the first one that holds no acceptable value ends the matter; what was changed before stays.

    (c.overrideBy source vs).asked <+: vs              (asked_isPrefix)
-/

namespace Interning

/-! ## Algorithm -/

/-- The variables that override a setting. -/
inductive Variable
  | mode
  | capacity
  | trackMemory
  | normalization
  deriving DecidableEq, Repr

namespace Variable

def name : Variable → String
  | mode => "CANON_INTERN_MODE"
  | capacity => "CANON_INTERN_CAPACITY"
  | trackMemory => "CANON_INTERN_TRACK_MEMORY"
  | normalization => "CANON_INTERN_NORMALIZATION"

/-- All variables, in the order they are asked for. -/
def all : List Variable := [mode, capacity, trackMemory, normalization]

end Variable

def flagVocabulary : List (String × Bool) :=
  [("1", true), ("true", true), ("yes", true), ("on", true),
   ("0", false), ("false", false), ("no", false), ("off", false)]

def readFlag? (raw : String) : Option Bool := (Text.readName flagVocabulary raw).toOption

/-- Reads a capacity: digits after an optional plus sign, blank characters around them. -/
def readCapacity? (raw : String) : Option UInt64 :=
  let digits := match Text.trimmed raw.toList with
    | '+' :: rest => rest
    | cs => cs
  match Text.Decimal.read? digits with
  | some n => if n < UInt64.size then some (.ofNat n) else none
  | none => none

/-- What a variable with the value `raw` makes of a configuration, and what is reported of it; a
flag is reported only when it is no truth value. -/
def Variable.apply (v : Variable) (raw : String) (c : Config) :
    Except Error (Config × Option Event) :=
  let applied := some (Event.overrideApplied v.name raw)
  match v with
  | .mode => (Mode.read raw).map fun m => ({ c with mode := m }, applied)
  | .capacity =>
    match readCapacity? raw with
    | some n => .ok ({ c with initialCapacity := n }, applied)
    | none => .error (.capacityNotInteger v.name raw)
  | .trackMemory =>
    match readFlag? raw with
    | some b => .ok ({ c with trackMemory := b }, none)
    | none => .ok (c, some (.flagIgnored v.name raw))
  | .normalization =>
    (Normalization.read raw).map fun k => ({ c with normalization := k }, applied)

/-- How the overriding of a configuration went. -/
structure Overridden where
  /-- The configuration afterwards, also when a variable was refused. -/
  config : Config
  /-- The variables asked for, in order. -/
  asked : List Variable
  /-- What was reported, in order. -/
  events : List Event
  /-- Whether the configuration is to be used. -/
  verdict : Except Error Unit

/-- Overrides `c` by the variables `vs`, looked up by name in `source`. -/
def Config.overrideBy (source : String → Option String) : List Variable → Config → Overridden
  | [], c => ⟨c, [], [], c.validate⟩
  | v :: vs, c =>
    match source v.name with
    | none =>
      let o := c.overrideBy source vs
      { o with asked := v :: o.asked }
    | some raw =>
      match v.apply raw c with
      | .error e => ⟨c, [v], [], .error e⟩
      | .ok (c', event) =>
        let o := c'.overrideBy source vs
        { o with asked := v :: o.asked, events := event.toList ++ o.events }

/-- Overrides a configuration by the variables of `source`. -/
def Config.applyOverrides (c : Config) (source : String → Option String) : Overridden :=
  c.overrideBy source Variable.all

/-! ## Lemmas -/

/-- Variables are asked for in order, each once. -/
theorem Config.asked_isPrefix (source : String → Option String) (vs : List Variable) (c : Config) :
    (c.overrideBy source vs).asked <+: vs := by
  induction vs generalizing c with
  | nil => exact List.prefix_rfl
  | cons v vs ih =>
    rw [overrideBy]
    split
    · exact List.prefix_cons_inj v |>.2 (ih c)
    · split
      · exact ⟨vs, rfl⟩
      · exact List.prefix_cons_inj v |>.2 (ih _)

end Interning
