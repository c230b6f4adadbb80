import Interning.Config
import Interning.Layout

/-!
# Configurations in any format

The settings of a configuration are the fields of a record.  A configuration is read by whatever
codec there is for a format; of a TOML document the capacity is checked after that, of JSON it is
not.
-/

namespace Interning.Config

/-! ## Algorithm -/

def settingKind : Setting → Layout.Kind Config
  | .mode => .choice (Mode.all.map fun m => (m.name, fun c : Config => { c with mode := m }))
  | .initialCapacity => .word fun n c => { c with initialCapacity := n }
  | .trackMemory => .flag fun b c => { c with trackMemory := b }
  | .normalization =>
    .choice (Normalization.all.map fun k => (k.name, fun c : Config => { c with normalization := k }))

def settingField (s : Setting) : Layout.Field Config := ⟨s.name, settingKind s⟩

/-- The settings as the fields of a record; each of them has a default. -/
def layout : Layout Config := ⟨{}, Setting.all.map settingField, by decide⟩

def value (c : Config) : Setting → Scalar
  | .mode => .name c.mode.name
  | .initialCapacity => .word c.initialCapacity
  | .trackMemory => .flag c.trackMemory
  | .normalization => .name c.normalization.name

/-- What there is to write of some settings. -/
def entries (c : Config) (settings : List Setting) : List (String × Scalar) :=
  settings.map fun s => (s.name, c.value s)

/-- Reads a configuration from a TOML document and checks it. -/
def fromToml (codec : Codec) (text : String) : Except Error Config :=
  match codec.read layout text with
  | some c => c.checked
  | none => .error .malformedToml

/-- Reads a configuration from JSON; its capacity is not checked. -/
def fromJson (codec : Codec) (text : String) : Except Error Config :=
  match codec.read layout text with
  | some c => .ok c
  | none => .error .malformedJson

def encode (codec : Codec) (c : Config) : String := codec.write (c.entries Setting.all)

end Interning.Config
