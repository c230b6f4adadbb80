import Interning.Error
import Interning.Text.Name

/-!
# Modes

A `Mode` is what a configuration asks for, a `ResolvedMode` what an interner runs in.  The host's
capabilities lead from one to the other.

    caps.resolve m = .error e ↔ m = .reclaiming ∧ ¬ caps.reclaimableRefs ∧ e = .reclaimingUnavailable
                                                                        (resolve_eq_error_iff)
-/

namespace Interning

/-! ## Algorithm -/

/-- The mode in effect. -/
inductive ResolvedMode
  /-- Every value is its own instance. -/
  | passthrough
  /-- An entry goes away with the last handle to its instance. -/
  | reclaiming
  /-- An entry stays as long as its table. -/
  | retaining
  deriving DecidableEq, Repr

/-- The mode asked for. -/
inductive Mode
  /-- Whichever mode the host prefers. -/
  | auto
  | passthrough
  | reclaiming
  | retaining
  deriving DecidableEq, Repr, Inhabited

/-- What the host can do. -/
structure HostCapabilities where
  /-- The host makes equal strings one instance by itself. -/
  nativeIntern : Bool
  /-- The host can refer to an instance without keeping it alive. -/
  reclaimableRefs : Bool
  deriving DecidableEq, Repr

/-- A selection of the optional capabilities that a build includes. -/
inductive Build
  /-- Reclaimable references only. -/
  | standard
  /-- None of them. -/
  | bare
  /-- All of them. -/
  | native
  deriving DecidableEq, Repr

def Build.capabilities : Build → HostCapabilities
  | .standard => ⟨false, true⟩
  | .bare => ⟨false, false⟩
  | .native => ⟨true, true⟩

namespace ResolvedMode

def name : ResolvedMode → String
  | passthrough => "passthrough"
  | reclaiming => "reclaiming"
  | retaining => "retaining"

/-- The name of a mode in the texts that describe a value. -/
def label : ResolvedMode → String
  | passthrough => "Passthrough"
  | reclaiming => "Reclaiming"
  | retaining => "Retaining"

def all : List ResolvedMode := [passthrough, reclaiming, retaining]

end ResolvedMode

namespace Mode

def name : Mode → String
  | auto => "auto"
  | passthrough => "passthrough"
  | reclaiming => "reclaiming"
  | retaining => "retaining"

def all : List Mode := [auto, passthrough, reclaiming, retaining]

/-- The names a mode may be asked for by. -/
def vocabulary : List (String × Mode) :=
  [("auto", auto), ("passthrough", passthrough), ("native", passthrough), ("off", passthrough),
   ("reclaiming", reclaiming), ("weak", reclaiming), ("retaining", retaining),
   ("strong", retaining)]

def read (raw : String) : Except Error Mode :=
  (Text.readName vocabulary raw).mapError .unknownMode

end Mode

namespace HostCapabilities

/-- The mode that suits the host best: its own interning first, then reclaimable references. -/
def preferredMode (caps : HostCapabilities) : ResolvedMode :=
  if caps.nativeIntern then .passthrough
  else if caps.reclaimableRefs then .reclaiming
  else .retaining

/-- The mode to run in when `mode` is asked for. -/
def resolve (caps : HostCapabilities) : Mode → Except Error ResolvedMode
  | .auto => .ok caps.preferredMode
  | .passthrough => .ok .passthrough
  | .reclaiming => if caps.reclaimableRefs then .ok .reclaiming else .error .reclaimingUnavailable
  | .retaining => .ok .retaining

/-! ## Lemmas -/

theorem resolve_eq_error_iff {caps : HostCapabilities} {mode : Mode} {e : Error} :
    caps.resolve mode = .error e ↔
      mode = .reclaiming ∧ caps.reclaimableRefs = false ∧ e = .reclaimingUnavailable := by
  rcases caps with ⟨_, _ | _⟩ <;> cases mode <;> simp [resolve, eq_comm]

/-- A host without reclaimable references never runs in the reclaiming mode. -/
theorem reclaimableRefs_of_resolve {caps : HostCapabilities} {mode : Mode}
    (h : caps.resolve mode = .ok .reclaiming) : caps.reclaimableRefs = true := by
  rcases caps with ⟨_ | _, _ | _⟩ <;> cases mode <;> simp_all [resolve, preferredMode]

end HostCapabilities

end Interning
