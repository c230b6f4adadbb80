import Interning.Config.Overrides
import Interning.KeyMap

/-!
# Configuration from the process environment

An environment holds bytes; a variable whose bytes are no UTF-8 text counts as absent.
-/

namespace Interning

/-- The variables of a process and the bytes they hold. -/
structure Environment where
  /-- The bytes under each name. -/
  bytes : KeyMap String ByteArray

namespace Environment

def text? (env : Environment) (name : String) : Option String :=
  (env.bytes.get? name).bind String.fromUTF8?

end Environment

/-- The default configuration with the overrides of the environment, and what was reported. -/
def Config.fromEnvironment (env : Environment) : Except Error Config × List Event :=
  let o := ({} : Config).applyOverrides env.text?
  (o.verdict.map fun _ => o.config, o.events)

end Interning
