import Interning.Normalizer
import Interning.World.Release

/-!
# Intern calls

A call on a table goes through four steps, and other threads may act between any two of them:

* `Call.begin` makes the key;
* `Call.check` looks for the key under the read lock, in a retaining table only;
* `Call.enter` looks again and stores an instance if there is none, both under one lock;
* `Call.finish` counts, accounts and reports, and drops what the call was given and does not need.

`World.intern` takes the steps one after the other.

    a live instance under the key is answered as it is          (enter_of_live?)
-/

namespace Interning

/-! ## Algorithm -/

inductive Argument
  /-- A handle, which the call uses up. -/
  | handle (i : InstanceId)
  /-- A text, of which an instance is made only if one is needed. -/
  | text (s : String)
  deriving DecidableEq, Repr

def Argument.value (w : World) : Argument → String
  | handle i => w.text i
  | text s => s

/-- The handle given, or one to a fresh instance of the text. -/
def Argument.own (a : Argument) (w : World) : InstanceId × World :=
  match a with
  | handle i => (i, w)
  | text s => w.create s

/-- The handle that a call has left over when it does not store its argument. -/
def Argument.leftover : Argument → Option InstanceId
  | handle i => some i
  | text _ => none

/-- An intern call whose key is known. -/
structure Call where
  table : TableId
  key : String
  argument : Argument
  deriving DecidableEq, Repr

/-- What a call found or did; it comes with a handle to the canonical instance. -/
inductive Outcome
  /-- The instance was there. -/
  | hit (canonical : InstanceId)
  /-- The instance was stored, in place of one that is gone if `stale`; `rejected` is the handle
  given, when the instance is a copy of it. -/
  | stored (canonical : InstanceId) (stale : Bool) (rejected : Option InstanceId)
  deriving DecidableEq, Repr

def Outcome.canonical : Outcome → InstanceId
  | hit i => i
  | stored i _ _ => i

def Outcome.isHit : Outcome → Bool
  | hit _ => true
  | stored _ _ _ => false

/-- Makes `i` fit to be stored: a retaining table takes a handle of its own, a reclaiming table
registers the instance, or a copy of it when it is registered already.  Answers the instance to
store and the handle given when that is another one. -/
def World.adopt (t : TableId) (key : String) (i : InstanceId) (w : World) :
    (InstanceId × Option InstanceId) × World :=
  match (w.tableAt t).storage with
  | .retaining => ((i, none), w.addHandle i)
  | .reclaiming =>
    match w.registration i with
    | none => ((i, none), w.register i ⟨t, key⟩)
    | some _ =>
      let (copy, w) := w.create (w.text i)
      ((copy, some i), w.register copy ⟨t, key⟩)

namespace Call

def begin (t : TableId) (f : Normalizer) (a : Argument) (w : World) : Call × World :=
  (⟨t, f.key (a.value w), a⟩, w.note .normalize)

/-- Looks for the key under the read lock, in a retaining table only. -/
def check (c : Call) (w : World) : Option Outcome × World :=
  match (w.tableAt c.table).storage with
  | .reclaiming => (none, w)
  | .retaining =>
    w.locked c.table fun w =>
      match w.live? c.table c.key with
      | some i => (some (.hit i), w.addHandle i)
      | none => (none, w)

/-- Stores the argument under the key. -/
def store (c : Call) (w : World) : Outcome × World :=
  let stale := (w.entries c.table).contains c.key
  let (i, w) := c.argument.own w
  let ((canonical, rejected), w) := w.adopt c.table c.key i
  (.stored canonical stale rejected,
    w.modifyEntries c.table fun m => m.insert c.key canonical)

/-- Looks for the key and stores the argument if it is not there, under one lock. -/
def enter (c : Call) (w : World) : Outcome × World :=
  w.locked c.table fun w =>
    match w.live? c.table c.key with
    | some i => (.hit i, w.addHandle i)
    | none => c.store w

/-- The handle that the call has to drop. -/
def discarded (c : Call) : Outcome → Option InstanceId
  | .hit _ => c.argument.leftover
  | .stored _ _ rejected => rejected

/-- Drops the handle that the call does not need. -/
def discard (c : Call) (o : Outcome) (w : World) : World := w.dropAll (c.discarded o).toList

/-- Counts the call, accounts for the entry it stored, and reports an entry taken over. -/
def record (c : Call) (o : Outcome) (w : World) : World :=
  match o with
  | .hit _ => w.count c.table .hit
  | .stored canonical stale _ =>
    let bytes := World.entryBytes c.key (w.text canonical)
    let w := (w.count c.table (.miss stale bytes)).accountGain c.table bytes
    if stale then w.report (.deadEntryReplaced c.key) else w

/-- The steps after the last lock: a hit is counted before the handle that is left over goes, an
instance stored is counted after it. -/
def finish (c : Call) (o : Outcome) (w : World) : World :=
  match o with
  | .hit _ => c.discard o (c.record o w)
  | .stored _ _ _ => c.record o (c.discard o w)

/-- The steps after the check. -/
def conclude (c : Call) (checked : Option Outcome) (w : World) : Outcome × World :=
  let (o, w) := match checked with
    | some o => (o, w)
    | none => c.enter w
  (o, c.finish o w)

end Call

namespace World

/-- Interns a value in a table: answers what happened, with a handle to the canonical instance. -/
def intern (t : TableId) (f : Normalizer) (a : Argument) (w : World) : Outcome × World :=
  let (c, w) := Call.begin t f a w
  let (checked, w) := c.check w
  c.conclude checked w

/-- A handle to the live instance stored under `key`. -/
def lookup (t : TableId) (key : String) (w : World) : Option InstanceId × World :=
  w.locked t fun w =>
    match w.live? t key with
    | some i => (some i, w.addHandle i)
    | none => (none, w)

end World

/-! ## Lemmas -/

@[simp]
theorem World.live?_note (w : World) (a : Act) (t : TableId) (key : String) :
    (w.note a).live? t key = w.live? t key := rfl

/-- A live instance under the key is answered as it is. -/
theorem Call.enter_of_live? {c : Call} {w : World} {i : InstanceId}
    (h : w.live? c.table c.key = some i) :
    c.enter w = (.hit i, ((w.note (.lock c.table)).addHandle i).note (.unlock c.table)) := by
  simp [enter, World.locked, h]

end Interning
