import Interning.World

/-!
# Releasing handles

When the last handle to a registered instance is released, its table is told, unless the table is
gone by then.  This `Reclamation` is a piece of work of its own: other threads may act between the
release and the moment the table's lock is taken.  The entry is removed only if it still refers to
that very instance.

    (r.detach w).1 = true ↔ the entry under the key is the instance   (detach_fst)
-/

namespace Interning

/-! ## Algorithm -/

/-- What is owed to a table after a registered instance went; the table stays until it is done. -/
structure Reclamation where
  table : TableId
  key : String
  /-- The instance that went. -/
  gone : InstanceId
  deriving DecidableEq, Repr

namespace World

/-- Gives up a handle; answers the reclamation that is owed when it was the last one. -/
def release (i : InstanceId) (w : World) : Option Reclamation × World :=
  let w' := w.modifyInstance i fun x => { x with handles := x.handles - 1 }
  if w.handles i = 1 then
    let w' := w'.note (.lastRelease i)
    match w.registration i with
    | some r =>
      if w.isOwned r.table then (some ⟨r.table, r.key, i⟩, w'.addOwner r.table) else (none, w')
    | none => (none, w')
  else (none, w')

end World

namespace Reclamation

/-- The part under the lock: removes the entry if it is still the instance's own. -/
def detach (r : Reclamation) (w : World) : Bool × World :=
  w.locked r.table fun w =>
    if (w.entries r.table).get? r.key = some r.gone then
      (true, w.modifyEntries r.table fun m => m.erase r.key)
    else (false, w)

/-- The part after the lock: counts, accounts, reports, and lets the table go. -/
def settle (r : Reclamation) (removed : Bool) (w : World) : World :=
  let bytes := World.entryBytes r.key (w.text r.gone)
  let event := if removed then .entryReclaimed r.key else .reclamationIgnored r.key
  (((w.count r.table (.reclaim removed bytes)).accountLoss r.table bytes).report event).removeOwner
    r.table

def run (r : Reclamation) (w : World) : World :=
  let (removed, w) := r.detach w
  r.settle removed w

end Reclamation

namespace World

/-- Does a reclamation if one is owed. -/
def reclaim (owed : Option Reclamation) (w : World) : World :=
  match owed with
  | some r => r.run w
  | none => w

/-- Drops a handle: releases it and does what is owed at once. -/
def drop (i : InstanceId) (w : World) : World :=
  let (owed, w) := w.release i
  w.reclaim owed

def dropAll (is : List InstanceId) (w : World) : World := is.foldl (fun w i => w.drop i) w

/-- Takes an owner from a table.  A retaining table that goes with it lets its entries go; answers the
handles that they were, the one stored first in front. -/
def abandon (t : TableId) (w : World) : List InstanceId × World :=
  let w := w.removeOwner t
  let x := w.tableAt t
  if x.owners = 0 ∧ x.storage = .retaining then
    (x.entries.values.reverse, w.modifyEntries t fun _ => ∅)
  else ([], w)

/-- Takes an owner from a table; a retaining table that goes with it drops the handles of its
entries. -/
def disown (t : TableId) (w : World) : World :=
  let (is, w) := w.abandon t
  w.dropAll is

end World

/-! ## Lemmas -/

theorem Reclamation.detach_fst (r : Reclamation) (w : World) :
    (r.detach w).1 = decide ((w.entries r.table).get? r.key = some r.gone) := by
  show (ite _ _ _ : Bool × World).1 = _
  split
  · next h => exact (decide_eq_true h).symm
  · next h => exact (decide_eq_false h).symm

end Interning
