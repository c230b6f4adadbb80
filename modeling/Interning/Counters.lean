import Interning.MemoryTracker
import Interning.Mode

/-!
# Counters and statistics

A table counts what happens to it in words of 64 bits.  A `Stats` is the view of these counters at
one moment, together with the mode and the number of entries.
-/

namespace Interning

/-- What a table has counted. -/
structure Counters where
  /-- Intern calls. -/
  calls : UInt64 := 0
  /-- Calls answered by an instance that was there. -/
  hits : UInt64 := 0
  /-- Calls that stored an instance. -/
  misses : UInt64 := 0
  /-- Misses that took over the entry of an instance that was gone. -/
  staleReplacements : UInt64 := 0
  /-- Instances whose last handle went. -/
  reclaimed : UInt64 := 0
  /-- Reclamations that did not find their entry. -/
  staleCallbacks : UInt64 := 0
  /-- Bytes of the keys and texts of the instances. -/
  bytes : UInt64 := 0
  deriving DecidableEq, Repr, Inhabited

namespace Counters

/-- Counts a call that found its instance. -/
def recordHit (c : Counters) : Counters := { c with calls := c.calls + 1, hits := c.hits + 1 }

/-- Counts a call that stored an instance of `bytes` bytes, its key included. -/
def recordMiss (c : Counters) (stale : Bool) (bytes : UInt64) : Counters :=
  { c with
    calls := c.calls + 1
    misses := c.misses + 1
    staleReplacements := if stale then c.staleReplacements + 1 else c.staleReplacements
    bytes := c.bytes + bytes }

/-- Counts a reclamation that gave back `bytes` bytes; the byte counter stops at zero. -/
def recordReclaim (c : Counters) (removed : Bool) (bytes : UInt64) : Counters :=
  { c with
    reclaimed := c.reclaimed + 1
    staleCallbacks := if removed then c.staleCallbacks else c.staleCallbacks + 1
    bytes := subSaturating c.bytes bytes }

inductive Entry
  | hit
  | miss (stale : Bool) (bytes : UInt64)
  | reclaim (removed : Bool) (bytes : UInt64)
  deriving DecidableEq, Repr

def record (c : Counters) : Entry → Counters
  | .hit => c.recordHit
  | .miss stale bytes => c.recordMiss stale bytes
  | .reclaim removed bytes => c.recordReclaim removed bytes

/-- The counters after each of the things to count, the first one first. -/
def history (c : Counters) : List Entry → List Counters
  | [] => []
  | e :: es => c.record e :: (c.record e).history es

end Counters

/-- The counters of a table at one moment, with its mode and its number of entries. -/
structure Stats where
  mode : ResolvedMode
  counters : Counters
  entries : UInt64
  deriving DecidableEq, Repr

namespace Stats

/-- The share of hits among the calls counted; zero when there was none. -/
def hitRate (s : Stats) : Float :=
  let total := s.counters.hits + s.counters.misses
  if total == 0 then 0.0 else s.counters.hits.toFloat / total.toFloat

def fields (s : Stats) : List (String × UInt64) :=
  [("calls", s.counters.calls), ("hits", s.counters.hits), ("misses", s.counters.misses),
   ("stale_replacements", s.counters.staleReplacements), ("reclaimed", s.counters.reclaimed),
   ("stale_callbacks", s.counters.staleCallbacks), ("entries", s.entries),
   ("bytes", s.counters.bytes)]

def describe (s : Stats) : String :=
  let parts := s.fields.map fun f => f.1 ++ ": " ++ Text.Decimal.text f.2.toNat
  "InternStats \x7b mode: " ++ s.mode.label ++ ", " ++ String.intercalate ", " parts ++ " \x7d"

end Stats

end Interning
