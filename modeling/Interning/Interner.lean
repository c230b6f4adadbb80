import Interning.Config
import Interning.World.Call

/-!
# Interners

An interner is a strategy, chosen once from a configuration and the capabilities of the host,
together with a normalizer.  Under the passthrough strategy every value is its own instance and
nothing is stored.

    an interner is made unless the capacity is too large or the mode is not to be had
                                                                  (resolve_eq_ok_iff)
-/

namespace Interning

/-! ## Algorithm -/

inductive Strategy
  /-- Values are handed back as they are. -/
  | passthrough
  /-- Values are looked up in a table. -/
  | table (t : TableId)
  deriving DecidableEq, Repr

/-- The mode that an interner of this configuration runs in, on a host of these capabilities. -/
def Config.resolve (c : Config) (caps : HostCapabilities) : Except Error ResolvedMode :=
  match c.validate with
  | .ok () => caps.resolve c.mode
  | .error e => .error e

namespace Strategy

def mode (w : World) : Strategy → ResolvedMode
  | passthrough => .passthrough
  | table t => (w.tableAt t).storage.mode

def table? : Strategy → Option TableId
  | passthrough => none
  | table t => some t

/-- The strategy of a mode; it makes the table that the mode needs. -/
def ofMode (mode : ResolvedMode) (capacity : UInt64) (tracked : Bool) (w : World) :
    Strategy × World :=
  match mode with
  | .passthrough => (passthrough, w)
  | .reclaiming =>
    let (t, w) := w.newTable .reclaiming capacity tracked
    (table t, w)
  | .retaining =>
    let (t, w) := w.newTable .retaining capacity tracked
    (table t, w)

def select (c : Config) (caps : HostCapabilities) (w : World) : Except Error (Strategy × World) :=
  (c.resolve caps).map fun mode => ofMode mode c.initialCapacity c.trackMemory w

/-- One more owner of the strategy's table. -/
def share (s : Strategy) (w : World) : World :=
  match s with
  | passthrough => w
  | table t => w.addOwner t

/-- One owner less of the strategy's table. -/
def disown (s : Strategy) (w : World) : World :=
  match s with
  | passthrough => w
  | table t => w.disown t

def intern (s : Strategy) (f : Normalizer) (a : Argument) (w : World) : InstanceId × World :=
  match s with
  | passthrough => a.own w
  | table t =>
    let (o, w) := w.intern t f a
    (o.canonical, w)

/-- A handle to the live instance stored under `key`. -/
def lookup (s : Strategy) (key : String) (w : World) : Option InstanceId × World :=
  match s with
  | passthrough => (none, w)
  | table t => w.lookup t key

def size (s : Strategy) (w : World) : Nat × World :=
  match s with
  | passthrough => (0, w)
  | table t => w.observe t fun w => w.size t

/-- The number of entries whose instance has a handle. -/
def liveSize (s : Strategy) (w : World) : Nat × World :=
  match s with
  | passthrough => (0, w)
  | table t => w.observe t fun w => w.liveSize t

def isEmpty (s : Strategy) (w : World) : Bool × World :=
  match s with
  | passthrough => (true, w)
  | table t => w.observe t fun w => (w.entries t).isEmpty

/-- The statistics so far; a passthrough strategy counts nothing. -/
def stats (s : Strategy) (w : World) : Stats × World :=
  match s with
  | passthrough => (⟨.passthrough, {}, 0⟩, w)
  | table t => w.observe t fun w => w.statsOf t

def describe (s : Strategy) (w : World) : String := "Strategy(" ++ (s.mode w).label ++ ")"

end Strategy

structure Interner where
  strategy : Strategy
  normalizer : Normalizer

namespace Interner

/-- The interner of a strategy and a normalizer; it reports the mode. -/
def make (s : Strategy) (f : Normalizer) (w : World) : Interner × World :=
  (⟨s, f⟩, w.report (.strategySelected (s.mode w)))

/-- The interner of a configuration with a normalizer of the host's own. -/
def withNormalizer (c : Config) (caps : HostCapabilities) (f : Normalizer) (w : World) :
    Except Error (Interner × World) :=
  (Strategy.select c caps w).map fun (s, w) => make s f w

def ofConfig (c : Config) (caps : HostCapabilities) (w : World) :
    Except Error (Interner × World) :=
  withNormalizer c caps c.normalization.normalizer w

/-- The plain interner of a mode: exact keys, no room made in advance, not tracked. -/
def ofMode (mode : ResolvedMode) (w : World) : Interner × World :=
  let (s, w) := Strategy.ofMode mode 0 false w
  make s .verbatim w

/-- The plain interner of the mode that the host prefers. -/
def auto (caps : HostCapabilities) (w : World) : Interner × World := ofMode caps.preferredMode w

def intern (n : Interner) (a : Argument) (w : World) : InstanceId × World :=
  n.strategy.intern n.normalizer a w

/-- A handle to the canonical instance of `value`, if there is one; nothing is stored. -/
def lookup (n : Interner) (value : String) (w : World) : Option InstanceId × World :=
  match n.strategy with
  | .passthrough => (none, w)
  | .table t => (w.note .normalize).lookup t (n.normalizer.key value)

def describe (n : Interner) (w : World) : String × World :=
  let (entries, w) := n.strategy.size w
  ("Interner \x7b mode: " ++ (n.strategy.mode w).label ++ ", entries: " ++
    Text.Decimal.text entries ++ " \x7d", w)

end Interner

/-! ## Lemmas -/

theorem Config.resolve_eq_ok_iff {c : Config} {caps : HostCapabilities} {mode : ResolvedMode} :
    c.resolve caps = .ok mode ↔
      c.initialCapacity ≤ maxInitialCapacity ∧ caps.resolve c.mode = .ok mode := by
  rw [← validate_eq_ok_iff, resolve]
  cases c.validate <;> simp

/-- With a table, an interner interns there. -/
theorem Interner.intern_of_table {n : Interner} {t : TableId} (h : n.strategy = .table t)
    (a : Argument) (w : World) :
    n.intern a w = ((w.intern t n.normalizer a).1.canonical, (w.intern t n.normalizer a).2) := by
  rw [intern, h]
  rfl

end Interning
