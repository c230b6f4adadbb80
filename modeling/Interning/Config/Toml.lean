import Interning.Config.Layout
import Interning.Toml.Codec

/-!
# Configurations as TOML documents

A setting is an entry at the root of a document.  Settings that are missing keep their defaults, and
entries of other names do not count.
-/

namespace Interning.Config

/-! ## Algorithm -/

/-- Reads a configuration and checks it. -/
def ofToml (text : String) : Except Error Config := fromToml Toml.codec text

def settingToml (c : Config) (s : Setting) : List Char := (c.value s).tomlChars

def settingsToml (c : Config) (settings : List Setting) : String :=
  Toml.entryText (c.entries settings)

def toToml (c : Config) : String := c.settingsToml Setting.all

end Interning.Config
