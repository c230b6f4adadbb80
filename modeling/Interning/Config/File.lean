import Interning.Config.Toml
import Interning.Event
import Interning.FileTree

/-!
# Configuration files

A configuration file is a TOML document.  When it cannot be used, the error tells which step failed
and why.
-/

namespace Interning

/-- Why a configuration file could not be used. -/
inductive LoadError
  /-- The file could not be read as text. -/
  | read (path : String) (cause : FileError)
  /-- The text is no acceptable configuration. -/
  | parse (path : String) (cause : Error)
  deriving DecidableEq, Repr

def LoadError.message : LoadError → String
  | read path _ => "Failed to read intern config " ++ path
  | parse path _ => "Failed to parse intern config " ++ path

/-- The configuration in a file, and what was reported. -/
def Config.load (tree : FileTree) (path : String) : Except LoadError Config × List Event :=
  match tree.readText path with
  | .error e => (.error (.read path e), [])
  | .ok text =>
    match Config.ofToml text with
    | .error e => (.error (.parse path e), [])
    | .ok c => (.ok c, [.configLoaded path])

end Interning
