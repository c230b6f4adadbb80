import Interning.Counters
import Interning.Event
import Interning.KeyMap

/-!
# Instances and tables

A `World` holds every instance that was ever made and every table, the tracker of the process,
and the journal of what was done.  An instance is known by its index, which is never used twice,
so that two handles are the same instance exactly when their indices are equal.  An instance
without handles is gone; a table without owners is gone.

    (w.modifyInstance i f).instanceAt j = f (w.instanceAt j) if j = i, else w.instanceAt j
                                                            (instanceAt_modifyInstance)
    (w.modifyTable t f).tableAt s = f (w.tableAt s) if s = t, else w.tableAt s
                                                            (tableAt_modifyTable)
-/

namespace Interning

/-! ## Algorithm -/

/-- An instance is known by its index in the world. -/
abbrev InstanceId := Nat

/-- A table is known by its index in the world. -/
abbrev TableId := Nat

/-- The table that is told when the last handle to an instance goes, and the key it is told. -/
structure Registration where
  table : TableId
  key : String
  deriving DecidableEq, Repr

/-- A text in memory. -/
structure Instance where
  /-- The text, which never changes. -/
  text : String
  /-- The number of handles to the instance. -/
  handles : Nat
  /-- Where the instance is registered; set at most once. -/
  registration : Option Registration
  deriving DecidableEq, Repr

instance : Inhabited Instance := ⟨⟨"", 0, none⟩⟩

/-- What becomes of an entry when its instance has no other handle. -/
inductive Storage
  /-- The entry is no handle; it goes with its instance. -/
  | reclaiming
  /-- The entry is a handle; it stays. -/
  | retaining
  deriving DecidableEq, Repr

def Storage.mode : Storage → ResolvedMode
  | reclaiming => .reclaiming
  | retaining => .retaining

/-- A table from keys to instances. -/
structure Table where
  storage : Storage
  /-- Whether the bytes of the entries count in the tracker of the process. -/
  tracked : Bool
  /-- The number of owners; the table is gone when there is none. -/
  owners : Nat
  /-- The instance stored under each key. -/
  entries : KeyMap String InstanceId
  counters : Counters

instance : Inhabited Table := ⟨⟨.retaining, false, 0, ∅, {}⟩⟩

/-- Something done in the world that other threads or the host can notice. -/
inductive Act
  /-- The lock of a table was taken. -/
  | lock (t : TableId)
  /-- The lock of a table was given back. -/
  | unlock (t : TableId)
  /-- A normalizer was asked for a key. -/
  | normalize
  /-- The last handle to an instance was released. -/
  | lastRelease (i : InstanceId)
  /-- An event was reported. -/
  | report (e : Event)
  deriving DecidableEq, Repr

def Act.event? : Act → Option Event
  | report e => some e
  | _ => none

/-- All instances and tables of a process. -/
structure World where
  /-- Every instance made so far, those that are gone too. -/
  instances : Array Instance := #[]
  /-- Every table made so far, those that are gone too. -/
  tables : Array Table := #[]
  /-- The account of the process. -/
  tracker : MemoryTracker := {}
  /-- What was done, the first act first. -/
  journal : Array Act := #[]

instance : Inhabited World := ⟨{}⟩

namespace World

/-! ### Views -/

/-- The instance of an index; an empty one without handles where there is none. -/
def instanceAt (w : World) (i : InstanceId) : Instance := w.instances[i]?.getD default

/-- The table of an index; an empty one without owners where there is none. -/
def tableAt (w : World) (t : TableId) : Table := w.tables[t]?.getD default

def text (w : World) (i : InstanceId) : String := (w.instanceAt i).text

def handles (w : World) (i : InstanceId) : Nat := (w.instanceAt i).handles

def registration (w : World) (i : InstanceId) : Option Registration :=
  (w.instanceAt i).registration

/-- Whether an instance has a handle. -/
def isLive (w : World) (i : InstanceId) : Bool := 0 < w.handles i

def isOwned (w : World) (t : TableId) : Bool := 0 < (w.tableAt t).owners

def entries (w : World) (t : TableId) : KeyMap String InstanceId := (w.tableAt t).entries

/-- The instance with a handle that a table stores under `key`. -/
def live? (w : World) (t : TableId) (key : String) : Option InstanceId :=
  ((w.entries t).get? key).filter w.isLive

/-- A table is empty when its number of entries is zero. -/
def isEmptySize (size : Nat) : Bool := size == 0

def size (w : World) (t : TableId) : Nat := (w.entries t).size

/-- The number of entries of a table whose instance has a handle. -/
def liveSize (w : World) (t : TableId) : Nat := (w.entries t).values.countP w.isLive

def statsOf (w : World) (t : TableId) : Stats :=
  ⟨(w.tableAt t).storage.mode, (w.tableAt t).counters, .ofNat (w.size t)⟩

/-- The events reported, the first one first. -/
def events (w : World) : List Event := w.journal.toList.filterMap Act.event?

/-- The bytes that an entry accounts for: its key and the text of its instance. -/
def entryBytes (key text : String) : UInt64 := .ofNat (key.utf8ByteSize + text.utf8ByteSize)

/-! ### Steps -/

def note (a : Act) (w : World) : World := { w with journal := w.journal.push a }

def report (e : Event) (w : World) : World := w.note (.report e)

def reportAll (es : List Event) (w : World) : World := es.foldl (fun w e => w.report e) w

def modifyInstance (i : InstanceId) (f : Instance → Instance) (w : World) : World :=
  { w with instances := w.instances.modify i f }

def modifyTable (t : TableId) (f : Table → Table) (w : World) : World :=
  { w with tables := w.tables.modify t f }

/-- Makes an unregistered instance with one handle. -/
def create (text : String) (w : World) : InstanceId × World :=
  (w.instances.size, { w with instances := w.instances.push ⟨text, 1, none⟩ })

def addHandle (i : InstanceId) (w : World) : World :=
  w.modifyInstance i fun x => { x with handles := x.handles + 1 }

def register (i : InstanceId) (r : Registration) (w : World) : World :=
  w.modifyInstance i fun x => { x with registration := some r }

def modifyEntries (t : TableId) (f : KeyMap String InstanceId → KeyMap String InstanceId)
    (w : World) : World :=
  w.modifyTable t fun x => { x with entries := f x.entries }

def count (t : TableId) (e : Counters.Entry) (w : World) : World :=
  w.modifyTable t fun x => { x with counters := x.counters.record e }

/-- Enters a gained entry of a table in the tracker, if the table is tracked. -/
def accountGain (t : TableId) (bytes : UInt64) (w : World) : World :=
  if (w.tableAt t).tracked then { w with tracker := w.tracker.record 1 bytes.toInt64 } else w

/-- Enters a lost entry of a table in the tracker, if the table is tracked. -/
def accountLoss (t : TableId) (bytes : UInt64) (w : World) : World :=
  if (w.tableAt t).tracked then { w with tracker := w.tracker.record (-1) (-bytes.toInt64) }
  else w

/-- Does something under the lock of a table. -/
def locked {α : Type} (t : TableId) (f : World → α × World) (w : World) : α × World :=
  let (a, w) := f (w.note (.lock t))
  (a, w.note (.unlock t))

/-- Looks at a table under its lock. -/
def observe {α : Type} (t : TableId) (view : World → α) (w : World) : α × World :=
  w.locked t fun w => (view w, w)

/-! ### Owners -/

/-- Makes a table with one owner. -/
def newTable (storage : Storage) (capacity : UInt64) (tracked : Bool) (w : World) :
    TableId × World :=
  let event := match storage with
    | .reclaiming => .reclaimingTableMade capacity
    | .retaining => .retainingTableMade capacity
  (w.tables.size, { w.report event with tables := w.tables.push ⟨storage, tracked, 1, ∅, {}⟩ })

def addOwner (t : TableId) (w : World) : World :=
  w.modifyTable t fun x => { x with owners := x.owners + 1 }

def removeOwner (t : TableId) (w : World) : World :=
  w.modifyTable t fun x => { x with owners := x.owners - 1 }

/-! ## Lemmas -/

theorem instanceAt_modifyInstance (w : World) (i j : InstanceId) (f : Instance → Instance) :
    (w.modifyInstance i f).instanceAt j =
      if i = j ∧ j < w.instances.size then f (w.instanceAt j) else w.instanceAt j := by
  simp only [instanceAt, modifyInstance, Array.getElem?_modify]
  by_cases h : i = j <;> by_cases hj : j < w.instances.size <;> simp [h, hj]

theorem tableAt_modifyTable (w : World) (t s : TableId) (f : Table → Table) :
    (w.modifyTable t f).tableAt s =
      if t = s ∧ s < w.tables.size then f (w.tableAt s) else w.tableAt s := by
  simp only [tableAt, modifyTable, Array.getElem?_modify]
  by_cases h : t = s <;> by_cases hs : s < w.tables.size <;> simp [h, hs]

@[simp]
theorem tableAt_modifyInstance (w : World) (i : InstanceId) (f : Instance → Instance)
    (t : TableId) : (w.modifyInstance i f).tableAt t = w.tableAt t := rfl

@[simp]
theorem instanceAt_modifyTable (w : World) (t : TableId) (f : Table → Table) (i : InstanceId) :
    (w.modifyTable t f).instanceAt i = w.instanceAt i := rfl

@[simp]
theorem instanceAt_note (w : World) (a : Act) (i : InstanceId) :
    (w.note a).instanceAt i = w.instanceAt i := rfl

@[simp]
theorem tableAt_note (w : World) (a : Act) (t : TableId) :
    (w.note a).tableAt t = w.tableAt t := rfl

theorem instanceAt_create (w : World) (text : String) (i : InstanceId) :
    (w.create text).2.instanceAt i =
      if i = w.instances.size then ⟨text, 1, none⟩ else w.instanceAt i := by
  simp only [instanceAt, create, Array.getElem?_push]
  split <;> rfl

/-- A table says that it is empty when it counts no entry. -/
theorem isEmpty_entries (w : World) (t : TableId) :
    (w.entries t).isEmpty = isEmptySize (w.size t) := by
  simp only [KeyMap.isEmpty, isEmptySize, size, KeyMap.size]
  cases (w.entries t).toList <;> rfl

/-- An instance has a handle when it is found live. -/
theorem isLive_of_live? {w : World} {t : TableId} {key : String} {i : InstanceId}
    (h : w.live? t key = some i) : w.isLive i = true := (Option.filter_eq_some_iff.1 h).2

end World

end Interning
