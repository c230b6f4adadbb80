import Interning.Config.Layout
import Interning.Counters
import Interning.Json.Codec

/-!
# JSON forms of the library's values

How settings, capabilities and counters are written as JSON, and how they are read back.
-/

namespace Interning

open Json (Reader Record word? bool? variant)

/-- A word that fills a field. -/
def wordField {α : Type} (name : String) (set : UInt64 → α → α) (required : Bool) :
    Json.Field α :=
  ⟨name, Reader.map set word?, required⟩

/-- A truth value that fills a field. -/
def boolField {α : Type} (name : String) (set : Bool → α → α) (required : Bool) : Json.Field α :=
  ⟨name, Reader.map set bool?, required⟩

def Mode.reader : Reader Mode := variant (Mode.all.map fun m => (m.name, m))

def ResolvedMode.reader : Reader ResolvedMode := variant (ResolvedMode.all.map fun m => (m.name, m))

def Normalization.reader : Reader Normalization :=
  variant (Normalization.all.map fun k => (k.name, k))

namespace Config

def settingJson (c : Config) (s : Setting) : Json := (c.value s).toJson

def settingsJson (c : Config) (settings : List Setting) : Json := .ofEntries (c.entries settings)

def toJson (c : Config) : Json := c.settingsJson Setting.all

/-- Reads a configuration; its capacity is not checked. -/
def ofJson (s : String) : Except Error Config := fromJson Json.codec s

end Config

namespace HostCapabilities

def toJson (caps : HostCapabilities) : Json :=
  .object [("native_intern", .bool caps.nativeIntern),
    ("reclaimable_refs", .bool caps.reclaimableRefs)]

def record : Record HostCapabilities :=
  ⟨⟨false, false⟩,
    [boolField "native_intern" (fun b c => { c with nativeIntern := b }) true,
     boolField "reclaimable_refs" (fun b c => { c with reclaimableRefs := b }) true]⟩

end HostCapabilities

namespace MemoryCategory

def name : MemoryCategory → String
  | canonicalTable => "CanonicalTable"

def reader : Reader MemoryCategory := variant [(canonicalTable.name, canonicalTable)]

end MemoryCategory

namespace MemoryTracker

def accountRecord : Record MemoryTracker :=
  ⟨{}, [wordField "items" (fun n m => { m with items := n }) true,
    wordField "bytes" (fun n m => { m with bytes := n }) true]⟩

end MemoryTracker

def Stats.toJson (s : Stats) : Json :=
  .object (("mode", .string s.mode.name) :: s.fields.map fun f => (f.1, .word f.2))

end Interning
