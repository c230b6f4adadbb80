import Interning.Json.Forms

/-!
# The JSON schema of configurations

Schemas in the dialect of draft 2020-12.  A schema that stands alone names the dialect and the type;
inside another one it is a definition to refer to.
-/

namespace Interning.Schema

def dialect : Json := .string "https://json-schema.org/draft/2020-12/schema"

/-- The schema of a choice among names. -/
def choice (description : String) (names : List String) : List (String × Json) :=
  [("description", .string description), ("type", .string "string"),
   ("enum", .array (names.map .string))]

/-- A schema that stands alone, given the name of the type. -/
def titled (title : String) (members : List (String × Json)) : Json :=
  .object (("$schema", dialect) :: ("title", .string title) :: members)

/-- The schema of a setting of its own type, which is defined beside it. -/
def reference (description definition default : String) : Json :=
  .object [("description", .string description), ("$ref", .string ("#/$defs/" ++ definition)),
    ("default", .string default)]

def modeMembers : List (String × Json) :=
  choice "Requested interning mode." (Mode.all.map Mode.name)

def normalizationMembers : List (String × Json) :=
  choice "Built-in normalizers selectable from configuration."
    (Normalization.all.map Normalization.name)

def setting : Setting → Json
  | .mode =>
    reference "Interning mode; \x60auto\x60 follows the host capabilities" "InternMode"
      ({} : Config).mode.name
  | .initialCapacity =>
    .object [("description", .string "Number of entries the canonical table is pre-sized for"),
      ("type", .string "integer"), ("format", .string "uint"), ("minimum", .number 0),
      ("default", .word ({} : Config).initialCapacity)]
  | .trackMemory =>
    .object [("description",
        .string "Record canonical table bytes in the process-wide memory tracker"),
      ("type", .string "boolean"), ("default", .bool ({} : Config).trackMemory)]
  | .normalization =>
    reference "How values are turned into lookup keys" "NormalizationKind"
      ({} : Config).normalization.name

def mode : Json := titled "InternMode" modeMembers

def normalization : Json := titled "NormalizationKind" normalizationMembers

def config : Json :=
  titled "InternConfig"
    [("description", .string "Settings for an interner, read once when it is constructed."),
     ("type", .string "object"),
     ("properties", .object (Setting.all.map fun s => (s.name, setting s))),
     ("$defs",
       .object [("InternMode", .object modeMembers),
         ("NormalizationKind", .object normalizationMembers)])]

/-- The schemas by the names of the types. -/
def named : List (String × Json) :=
  [("InternConfig", config), ("InternMode", mode), ("NormalizationKind", normalization)]

end Interning.Schema
