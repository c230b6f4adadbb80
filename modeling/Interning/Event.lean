import Interning.Error
import Interning.Mode

/-!
# Events

What the library reports while it works.  An `Event` is what happened; `Event.line` is the line
that tells of it.
-/

namespace Interning

inductive Level
  | trace
  | debug
  | info
  | warn
  deriving DecidableEq, Repr

def Level.name : Level → String
  | trace => "TRACE"
  | debug => "DEBUG"
  | info => "INFO"
  | warn => "WARN"

/-- Something worth reporting. -/
inductive Event
  /-- A table whose entries go with their instances was made. -/
  | reclaimingTableMade (capacity : UInt64)
  /-- A table that keeps its entries was made. -/
  | retainingTableMade (capacity : UInt64)
  /-- An interner settled on its mode. -/
  | strategySelected (mode : ResolvedMode)
  /-- An entry went with its instance. -/
  | entryReclaimed (key : String)
  /-- An instance went whose entry belonged to another one by then, or to none. -/
  | reclamationIgnored (key : String)
  /-- An entry whose instance was gone was taken over. -/
  | deadEntryReplaced (key : String)
  /-- A variable changed a setting. -/
  | overrideApplied (name raw : String)
  /-- A variable held no truth value. -/
  | flagIgnored (name raw : String)
  /-- The environment was refused as a whole. -/
  | environmentIgnored (cause : Error)
  /-- The mode asked for was not to be had. -/
  | modeFallback (cause : Error)
  /-- A configuration was read from a file. -/
  | configLoaded (path : String)
  deriving DecidableEq, Repr

namespace Event

def level : Event → Level
  | entryReclaimed _ | reclamationIgnored _ | deadEntryReplaced _ => .trace
  | reclaimingTableMade _ | retainingTableMade _ | overrideApplied _ _ | configLoaded _ => .debug
  | strategySelected _ => .info
  | flagIgnored _ _ | environmentIgnored _ | modeFallback _ => .warn

def message : Event → String
  | reclaimingTableMade _ => "creating reclaiming canonical table"
  | retainingTableMade _ => "creating retaining canonical table"
  | strategySelected _ => "string interning strategy selected"
  | entryReclaimed _ => "reclaimed canonical entry"
  | reclamationIgnored _ => "ignored reclamation for replaced entry"
  | deadEntryReplaced _ => "replaced dead canonical entry"
  | overrideApplied name raw =>
    "Applying environment override: " ++ name ++ " = " ++ raw
  | flagIgnored name raw => "Ignoring " ++ name ++ ": '" ++ raw ++ "' is not a boolean"
  | environmentIgnored cause => "Ignoring invalid interning environment: " ++ cause.message
  | modeFallback cause => "Falling back to automatic interning mode: " ++ cause.message
  | configLoaded path => "Loaded intern config from " ++ path

/-- What the event is about, as named fields. -/
def fields : Event → List (String × String)
  | reclaimingTableMade capacity | retainingTableMade capacity =>
    [("initial_capacity", Text.Decimal.text capacity.toNat)]
  | strategySelected mode => [("mode", mode.name)]
  | entryReclaimed key | reclamationIgnored key | deadEntryReplaced key => [("key", key)]
  | _ => []

def line (e : Event) : String :=
  e.level.name ++ " " ++ e.message ++
    String.join (e.fields.map fun f => " " ++ f.1 ++ "=" ++ f.2)

end Event

end Interning
