import Interning.Interner.Process
import Interning.Script.State

/-!
# Running scripts

`Script.run` answers the steps of a script one by one.  A step may have nested steps, which are
answered in the middle of it.
-/

namespace Interning.Script

mutual

def Step.run : Step → State → Result × State
  | .make name how, st => st.make name how
  | .cloneTarget target name, st => st.cloneTarget target name
  | .dropTarget target, st => st.dropTarget target
  | .value text keepAs, st => st.value text keepAs
  | .clone handle keepAs, st => st.clone handle keepAs
  | .drop handle, st =>
    let (existed, st) := st.drop handle
    (.existed existed, st)
  | .describe handle, st =>
    match st.handles.get? handle with
    | some i => (.handle (st.describe i), st)
    | none => (.failed (.noSuchHandle handle), st)
  | .compare a b, st => (st.compare a b, st)
  | .intern request, st => st.intern request
  | .lookup target text keepAs, st => st.lookup target text keepAs
  | .stats target, st => st.stats target
  | .debug target, st => st.debug target
  | .repeated target stem count modulus keep normalizer, st =>
    st.repeated target stem count modulus keep normalizer
  | .raceDrop handle nested, st =>
    let ((dropped, answers), st) := st.dropBetween handle fun st => runSteps nested st
    (.dropRaced dropped answers, st)
  | .raceIntern request nested, st =>
    let ((result, answers), st) := st.internBetween request fun st => runSteps nested st
    (.internRaced result answers, st)

/-- Does steps in order and answers each of them. -/
def runSteps : List Step → State → List Answer × State
  | [], st => ([], st)
  | step :: rest, st =>
    let (result, st) := step.run st
    let (answer, st) := st.answer result
    let (answers, st) := runSteps rest st
    (answer :: answers, st)

end

/-- Drops the handles that are left, in the order of their names. -/
def State.dropHandles (st : State) : State :=
  (Text.ascending st.handles.keys).foldl (fun st name => (st.drop name).2) st

/-- Answers a script that starts from a given state. -/
def runFrom (steps : List Step) (st : State) : Transcript :=
  let (startLog, st) := st.takeLog
  let startView := st.view
  let (answers, st) := runSteps steps st
  let (endLog, st) := st.dropHandles.takeLog
  ⟨startLog, startView, answers, endLog, st.view⟩

/-- Answers a script that starts with nothing. -/
def run (caps : HostCapabilities) (steps : List Step) : Transcript :=
  runFrom steps (State.initial caps)

/-- Answers a script that starts with the interner of the process, under the name `global`.  The
process owns that interner to its end, whatever becomes of the name. -/
def runInProcess (caps : HostCapabilities) (env : Environment) (steps : List Step) : Transcript :=
  let (n, w) := Interner.ofProcess caps env {}
  let targets := KeyMap.insert ∅ "global" (Target.interner n)
  runFrom steps ⟨n.strategy.share w, caps, targets, ∅, some n⟩

end Interning.Script
