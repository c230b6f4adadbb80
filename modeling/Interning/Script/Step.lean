import Interning.Config
import Interning.Counters

/-!
# Steps of a script and their answers

A script works on interners, bare tables and handles, all of them known by names, and so are the
normalizers that it may ask for.  Each step has an answer, which tells its result, how the tables and
the tracker stand afterwards, and what was reported since the answer before.
-/

namespace Interning

namespace Normalizer

/-- The normalizers of scripts that no configuration can name. -/
def known : List (String × Normalizer) :=
  [("trim", ofFunction Text.trim),
   ("reverse", ofFunction fun s => String.ofList s.toList.reverse),
   ("first2", ofFunction fun s => String.ofList (s.toList.take 2)),
   ("empty", ofFunction fun _ => ""),
   ("double", ofFunction fun s => s ++ s),
   ("arc_fold", asciiCaseFold)]

/-- The normalizer of this very name. -/
def ofName? (name : String) : Option Normalizer :=
  match Normalization.all.find? (·.name == name) with
  | some kind => some kind.normalizer
  | none => known.lookup name

/-- The normalizer that `name` stands for: a normalization under any of its names, or else the
normalizer of this very name. -/
def named? (name : String) : Option Normalizer :=
  match Normalization.read name with
  | .ok kind => some kind.normalizer
  | .error _ => ofName? name

end Normalizer

namespace Script

/-- Where the value of an intern step comes from. -/
inductive Source
  /-- A fresh instance of a text. -/
  | fresh (text : String)
  /-- A text, copied only if need be. -/
  | borrowed (text : String)
  /-- One more handle to the instance of a named one. -/
  | copied (handle : String)
  /-- A named handle itself; the name is free then. -/
  | moved (handle : String)
  deriving Repr

structure Request where
  target : String
  source : Source
  /-- The normalizer for this call, on a bare table. -/
  normalizer : String
  /-- The name for the handle answered. -/
  keepAs : Option String
  /-- Whether the interner of the process is meant, where the target is an interner of its name. -/
  ofProcess : Bool
  deriving Repr

inductive Making
  /-- The plain interner of the mode that the host prefers. -/
  | auto
  /-- The plain interner of a mode. -/
  | plain (mode : ResolvedMode)
  /-- The interner of a configuration on this host. -/
  | configured (config : Config)
  /-- The interner of a configuration on a host of other capabilities. -/
  | onHost (config : Config) (caps : HostCapabilities)
  /-- The interner of a configuration on this host, with a normalizer known by name. -/
  | normalized (config : Config) (normalizer : String)
  /-- The bare table of a configuration on a host of other capabilities. -/
  | table (config : Config) (caps : HostCapabilities)
  deriving Repr

inductive Step
  | make (name : String) (how : Making)
  | cloneTarget (target name : String)
  | dropTarget (target : String)
  /-- Makes an instance that is in no table. -/
  | value (text : String) (keepAs : Option String)
  | clone (handle : String) (keepAs : Option String)
  | drop (handle : String)
  | describe (handle : String)
  | compare (a b : String)
  | intern (request : Request)
  | lookup (target text : String) (keepAs : Option String)
  | stats (target : String)
  | debug (target : String)
  /-- Interns the texts `stem0`, `stem1` and so on, `count` of them, their numbers below `modulus`
  (which counts as one if it is zero); the handles are kept under these texts or dropped at once. -/
  | repeated (target stem : String) (count modulus : Nat) (keep : Bool) (normalizer : String)
  /-- Drops a handle and runs the nested steps before the reclamation that is owed for it. -/
  | raceDrop (handle : String) (nested : List Step)
  /-- Interns in a retaining table and runs the nested steps between its two looks at the key. -/
  | raceIntern (request : Request) (nested : List Step)

inductive Failure
  | noSuchHandle (name : String)
  | noSuchTarget (name : String)
  | noSuchNormalizer (name : String)
  /-- The target is a bare table that stores nothing. -/
  | noTable
  | refused (cause : Error)
  deriving Repr

structure Description where
  text : String
  /-- The names of the handles to the same instance, in order. -/
  same : List String
  /-- The number of handles to the instance. -/
  count : Nat
  deriving Repr

structure Report where
  size : Nat
  liveSize : Nat
  isEmpty : Bool
  stats : Stats
  deriving Repr

/-- How the targets and the tracker stand; a target that is a bare table storing nothing has no
report. -/
structure View where
  tables : List (String × Option Report)
  tracker : MemoryTracker
  deriving Repr

mutual

inductive Result
  | failed (cause : Failure)
  | done
  | nothing
  | existed (b : Bool)
  /-- A target was made: its mode, its description, and for a bare table the mode of the table. -/
  | made (mode : ResolvedMode) (description : String) (tableMode : Option ResolvedMode)
  | handle (d : Description)
  | comparison (sameInstance sameContent : Bool)
  | stats (s : Stats)
  | text (s : String)
  /-- Whether the handle existed, and the answers of the nested steps if they were run. -/
  | dropRaced (dropped : Bool) (nested : Option (List Answer))
  /-- The result of the call, and the answers of the nested steps if they were run. -/
  | internRaced (result : Result) (nested : Option (List Answer))

inductive Answer
  | mk (result : Result) (view : View) (log : List String)

end

structure Transcript where
  /-- What was reported before the first step. -/
  startLog : List String
  startView : View
  answers : List Answer
  /-- What was reported while the handles left over were dropped. -/
  endLog : List String
  endView : View

end Script

end Interning
