import Interning.Config.Environment
import Interning.Interner

/-!
# The interner of the process

The interner that a process makes on first use and keeps to its end.  It can always be made: an
environment with a bad variable is ignored as a whole, and a mode that the host cannot do gives
way to the plain interner of the mode it prefers.
-/

namespace Interning

namespace Interner

/-- The configuration to use for an environment, and what is reported on the way. -/
def processConfig (env : Environment) : Config × List Event :=
  match Config.fromEnvironment env with
  | (.ok c, events) => (c, events)
  | (.error e, events) => ({}, events ++ [.environmentIgnored e])

def ofProcess (caps : HostCapabilities) (env : Environment) (w : World) : Interner × World :=
  let (c, events) := processConfig env
  let w := w.reportAll events
  match ofConfig c caps w with
  | .ok made => made
  | .error e => auto caps (w.report (.modeFallback e))

end Interner

end Interning
