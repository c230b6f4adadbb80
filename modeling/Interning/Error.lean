import Interning.Text.Decimal

/-!
# Errors

An `Error` is a cause.  Its kind gives the label of the message and its detail the rest.
-/

namespace Interning

inductive ErrorKind
  | io
  | serialization
  | parse
  | config
  | unsupportedMode
  deriving DecidableEq, Repr

namespace ErrorKind

/-- The words in front of the detail. -/
def label : ErrorKind → String
  | io => "IO error"
  | serialization => "Serialization error"
  | parse => "Config parse error"
  | config => "Invalid configuration"
  | unsupportedMode => "Unsupported intern mode"

def message (kind : ErrorKind) (detail : String) : String := kind.label ++ ": " ++ detail

end ErrorKind

/-- Why a setting was refused. -/
inductive Error
  /-- A mode that has no such name. -/
  | unknownMode (name : String)
  /-- The reclaiming mode, asked of a host that cannot do it. -/
  | reclaimingUnavailable
  /-- A normalization that has no such name. -/
  | unknownNormalization (name : String)
  /-- A capacity that is no numeral: the variable and what it held. -/
  | capacityNotInteger (name raw : String)
  /-- A capacity above the greatest one allowed. -/
  | capacityTooLarge (capacity maximum : UInt64)
  /-- A text that is no settings document, or one with a value of the wrong type. -/
  | malformedToml
  /-- A text that is no JSON value of the type asked for. -/
  | malformedJson
  deriving DecidableEq, Repr

namespace Error

def kind : Error → ErrorKind
  | unknownMode _ | reclaimingUnavailable => .unsupportedMode
  | unknownNormalization _ | capacityNotInteger _ _ | capacityTooLarge _ _ => .config
  | malformedToml => .parse
  | malformedJson => .serialization

/-- What went wrong, in words. -/
def detail : Error → String
  | unknownMode name => name
  | reclaimingUnavailable => "reclaiming mode requires reclaimable references"
  | unknownNormalization name => "unknown normalization '" ++ name ++ "'"
  | capacityNotInteger name raw => name ++ " must be an integer, got '" ++ raw ++ "'"
  | capacityTooLarge capacity maximum =>
    "initial_capacity " ++ Text.Decimal.text capacity.toNat ++ " exceeds maximum " ++
      Text.Decimal.text maximum.toNat
  | malformedToml => "malformed TOML"
  | malformedJson => "malformed JSON"

def message (e : Error) : String := e.kind.message e.detail

end Error

end Interning
