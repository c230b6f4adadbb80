import Interning.Interner
import Interning.Script.Step
import Interning.World.Content

/-!
# The state of a script

The named targets and handles of a script, the world they live in, and the single operations of its
steps.  A name is given to the new thing first, and what had it before is dropped then.
-/

namespace Interning.Script

/-- Something that values can be interned in. -/
inductive Target
  | interner (n : Interner)
  /-- A strategy alone; the normalizer comes with each call. -/
  | table (s : Strategy)

def Target.strategy : Target → Strategy
  | interner n => n.strategy
  | table s => s

/-- The strategy and normalizer of a call that names a normalizer. -/
def Target.method (normalizer : String) : Target → Except Failure (Strategy × Normalizer)
  | interner n => .ok (n.strategy, n.normalizer)
  | table s =>
    match Normalizer.named? normalizer, s with
    | none, _ => .error (.noSuchNormalizer normalizer)
    | some _, .passthrough => .error .noTable
    | some f, s => .ok (s, f)

/-- The strategy and normalizer of repeated calls, for which it counts first that a bare table stores
nothing. -/
def Target.repeatedMethod (normalizer : String) : Target → Except Failure (Strategy × Normalizer)
  | table .passthrough => .error .noTable
  | target => target.method normalizer

/-- The state between two steps. -/
structure State where
  world : World
  /-- What the host can do. -/
  caps : HostCapabilities
  targets : KeyMap String Target
  handles : KeyMap String InstanceId
  /-- The interner of the process. -/
  process : Option Interner

namespace State

def initial (caps : HostCapabilities) : State := ⟨{}, caps, ∅, ∅, none⟩

def onWorld (f : World → World) (st : State) : State := { st with world := f st.world }

/-! ### Views -/

def describe (i : InstanceId) (st : State) : Description where
  text := st.world.text i
  same := Text.ascending ((st.handles.toList.filter (·.2 == i)).map (·.1))
  count := st.world.handles i

def report (st : State) : Target → Option Report
  | .table .passthrough => none
  | target =>
    let s := target.strategy
    let w := st.world
    some ⟨(s.size w).1, (s.liveSize w).1, (s.isEmpty w).1, (s.stats w).1⟩

def view (st : State) : View :=
  ⟨st.targets.toList.map fun (name, target) => (name, st.report target), st.world.tracker⟩

/-- What was reported since the last time, and the state with nothing left to tell. -/
def takeLog (st : State) : List String × State :=
  (st.world.events.map Event.line, st.onWorld fun w => { w with journal := #[] })

def answer (r : Result) (st : State) : Answer × State :=
  let (log, st) := st.takeLog
  (.mk r st.view log, st)

/-! ### Handles -/

def bindHandle (name : String) (i : InstanceId) (st : State) : State :=
  let previous := st.handles.get? name
  let st := { st with handles := st.handles.insert name i }
  st.onWorld fun w => w.dropAll previous.toList

/-- Keeps a handle under a name and describes it, or describes it and drops it. -/
def keep (keepAs : Option String) (i : InstanceId) (st : State) : Result × State :=
  match keepAs with
  | some name =>
    let st := st.bindHandle name i
    (.handle (st.describe i), st)
  | none => (.handle (st.describe i), st.onWorld fun w => w.drop i)

def value (text : String) (keepAs : Option String) (st : State) : Result × State :=
  let (i, w) := st.world.create text
  { st with world := w }.keep keepAs i

def clone (handle : String) (keepAs : Option String) (st : State) : Result × State :=
  match st.handles.get? handle with
  | some i => (st.onWorld fun w => w.addHandle i).keep keepAs i
  | none => (.failed (.noSuchHandle handle), st)

/-- Takes a named handle out of the state; the handle stays. -/
def takeHandle (handle : String) (st : State) : Option InstanceId × State :=
  match st.handles.get? handle with
  | some i => (some i, { st with handles := st.handles.erase handle })
  | none => (none, st)

def drop (handle : String) (st : State) : Bool × State :=
  let (i, st) := st.takeHandle handle
  (i.isSome, st.onWorld fun w => w.dropAll i.toList)

def compare (a b : String) (st : State) : Result :=
  match st.handles.get? a, st.handles.get? b with
  | none, _ => .failed (.noSuchHandle a)
  | some _, none => .failed (.noSuchHandle b)
  | some i, some j => .comparison (i == j) (st.world.sameContent i j)

/-! ### Targets -/

def bindTarget (name : String) (target : Target) (st : State) : State :=
  let previous := st.targets.get? name
  let st := { st with targets := st.targets.insert name target }
  match previous with
  | some old => st.onWorld fun w => old.strategy.disown w
  | none => st

/-- The target to be made, with the world it is made in. -/
def making (how : Making) (st : State) : Except Failure (Target × World) :=
  let interner (made : Except Error (Interner × World)) : Except Failure (Target × World) :=
    match made with
    | .ok (n, w) => .ok (.interner n, w)
    | .error e => .error (.refused e)
  match how with
  | .auto => interner (.ok (Interner.auto st.caps st.world))
  | .plain mode => interner (.ok (Interner.ofMode mode st.world))
  | .configured c => interner (Interner.ofConfig c st.caps st.world)
  | .onHost c caps => interner (Interner.ofConfig c caps st.world)
  | .normalized c name =>
    match Normalizer.named? name with
    | some f => interner (Interner.withNormalizer c st.caps f st.world)
    | none => .error (.noSuchNormalizer name)
  | .table c caps =>
    match Strategy.select c caps st.world with
    | .ok (s, w) => .ok (.table s, w)
    | .error e => .error (.refused e)

def describeTarget (target : Target) (st : State) : String × State :=
  match target with
  | .interner n =>
    let (text, w) := n.describe st.world
    (text, { st with world := w })
  | .table s => (s.describe st.world, st)

def make (name : String) (how : Making) (st : State) : Result × State :=
  match st.making how with
  | .error e => (.failed e, st)
  | .ok (target, w) =>
    let st := { st with world := w }.bindTarget name target
    let (text, st) := st.describeTarget target
    let mode := target.strategy.mode st.world
    let tableMode := match target with
      | .interner _ | .table .passthrough => none
      | .table (.table _) => some mode
    (.made mode text tableMode, st)

def cloneTarget (target name : String) (st : State) : Result × State :=
  match st.targets.get? target with
  | some x => (.done, (st.onWorld fun w => x.strategy.share w).bindTarget name x)
  | none => (.failed (.noSuchTarget target), st)

def dropTarget (target : String) (st : State) : Result × State :=
  match st.targets.get? target with
  | some x =>
    let st := { st with targets := st.targets.erase target }
    (.existed true, st.onWorld fun w => x.strategy.disown w)
  | none => (.existed false, st)

/-- The statistics of a target; a bare table that stores nothing has none. -/
def stats (target : String) (st : State) : Result × State :=
  match st.targets.get? target with
  | some (.table .passthrough) => (.nothing, st)
  | some x =>
    let (s, w) := x.strategy.stats st.world
    (.stats s, { st with world := w })
  | none => (.failed (.noSuchTarget target), st)

def debug (target : String) (st : State) : Result × State :=
  match st.targets.get? target with
  | some x =>
    let (text, st) := st.describeTarget x
    (.text text, st)
  | none => (.failed (.noSuchTarget target), st)

/-! ### Interning -/

/-- Looks a text up; a bare table takes it as the key. -/
def lookup (target text : String) (keepAs : Option String) (st : State) : Result × State :=
  match st.targets.get? target with
  | none => (.failed (.noSuchTarget target), st)
  | some (.table .passthrough) => (.failed .noTable, st)
  | some x =>
    let (found, w) := match x with
      | .interner n => n.lookup text st.world
      | .table s => s.lookup text st.world
    let st := { st with world := w }
    match found with
    | some i => st.keep keepAs i
    | none => (.nothing, st)

/-- The target of a request.  The interner of the process stands in only for another interner; a bare
table of that name is itself meant. -/
def requestTarget (r : Request) (st : State) : Except Failure Target :=
  match st.targets.get? r.target, st.process with
  | none, _ => .error (.noSuchTarget r.target)
  | some (.interner n), some process =>
    .ok (.interner (if r.ofProcess && r.target == "global" then process else n))
  | some x, _ => .ok x

/-- The argument of a call; a handle that is moved has lost its name then. -/
def argument (source : Source) (st : State) : Except Failure Argument × State :=
  match source with
  | .fresh text =>
    let (i, w) := st.world.create text
    (.ok (.handle i), { st with world := w })
  | .borrowed text => (.ok (.text text), st)
  | .copied name =>
    match st.handles.get? name with
    | some i => (.ok (.handle i), st.onWorld fun w => w.addHandle i)
    | none => (.error (.noSuchHandle name), st)
  | .moved name =>
    match st.takeHandle name with
    | (some i, st) => (.ok (.handle i), st)
    | (none, st) => (.error (.noSuchHandle name), st)

/-- Everything a call needs; of two faults the target counts before the handle, and the handle
before the normalizer.  The argument of a call that cannot be made is dropped. -/
def prepare (r : Request) (st : State) :
    Except Failure (Strategy × Normalizer × Argument) × State :=
  match st.requestTarget r with
  | .error e => (.error e, st)
  | .ok target =>
    match st.argument r.source with
    | (.error e, st) => (.error e, st)
    | (.ok a, st) =>
      match target.method r.normalizer with
      | .ok (s, f) => (.ok (s, f, a), st)
      | .error e => (.error e, st.onWorld fun w => w.dropAll a.leftover.toList)

def intern (r : Request) (st : State) : Result × State :=
  match st.prepare r with
  | (.error e, st) => (.failed e, st)
  | (.ok (s, f, a), st) =>
    let (i, w) := s.intern f a st.world
    { st with world := w }.keep r.keepAs i

/-- Interns a value and does something else between the two looks at the key, if there are two; the
table stays while the call lasts.  Answers what came of that, too. -/
def internBetween {α : Type} (r : Request) (between : State → α × State) (st : State) :
    (Result × Option α) × State :=
  match st.prepare r with
  | (.error e, st) => ((.failed e, none), st)
  | (.ok (.passthrough, _, a), st) =>
    let (i, w) := a.own st.world
    let (result, st) := { st with world := w }.keep r.keepAs i
    ((result, none), st)
  | (.ok (.table t, f, a), st) =>
    let (c, w) := Call.begin t f a (st.world.addOwner t)
    let (checked, w) := c.check w
    let st := { st with world := w }
    let (other, st) :=
      if checked.isNone && (w.tableAt t).storage == .retaining then
        let (b, st) := between st
        (some b, st)
      else (none, st)
    let (o, w) := c.conclude checked st.world
    let (result, st) := { st with world := w.disown t }.keep r.keepAs o.canonical
    ((result, other), st)

/-- Drops a named handle and does something else before the reclamation that is owed for it, if one
is.  Answers whether the handle existed and what came of the other thing. -/
def dropBetween {α : Type} (handle : String) (between : State → α × State) (st : State) :
    (Bool × Option α) × State :=
  match st.takeHandle handle with
  | (none, st) => ((false, none), st)
  | (some i, st) =>
    match st.world.release i with
    | (none, w) => ((true, none), { st with world := w })
    | (some owed, w) =>
      let (b, st) := between { st with world := w }
      ((true, some b), st.onWorld owed.run)

/-- Interns one text after the other; nothing of this is told.  Each handle is kept under the text that
was given, or dropped at once.  Without a call nothing can go wrong but that there is no target. -/
def repeated (target stem : String) (count modulus : Nat) (keep : Bool) (normalizer : String)
    (st : State) : Result × State :=
  match st.targets.get? target with
  | none => (.failed (.noSuchTarget target), st)
  | some x =>
    if count = 0 then (.done, st.takeLog.2)
    else
      match x.repeatedMethod normalizer with
      | .error e => (.failed e, st)
      | .ok (s, f) =>
        let once (st : State) (n : Nat) : State :=
          let text := stem ++ Text.Decimal.text (n % max modulus 1)
          let (i, w) := s.intern f (.text text) st.world
          let st := { st with world := w }
          if keep then st.bindHandle text i else st.onWorld fun w => w.drop i
        let st := (List.range count).foldl once st
        (.done, st.takeLog.2)

end State

end Interning.Script
