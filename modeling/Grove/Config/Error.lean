import Grove.Grammar.Text

/-!
# Configuration errors

Only text can be wrong: a file that cannot be read, a document that cannot be understood, a rule
text with a bad line, or a setting out of its range. Each error is a cause; the wording is one
function.
-/

set_option autoImplicit false

namespace Grove

/-- Why a file could not be read. -/
inductive ReadError where
  | notFound
  | isDirectory
  | notDirectory
  | permissionDenied
  | nameTooLong
  | nameHasNul
  | notText
  deriving DecidableEq

def ReadError.message : ReadError → String
  | .notFound => "No such file or directory (os error 2)"
  | .isDirectory => "Is a directory (os error 21)"
  | .notDirectory => "Not a directory (os error 20)"
  | .permissionDenied => "Permission denied (os error 13)"
  | .nameTooLong => "File name too long (os error 36)"
  | .nameHasNul => "file name contained an unexpected NUL byte"
  | .notText => "stream did not contain valid UTF-8"

/-- Why a document says no configuration. -/
inductive DocumentError where
  | notWellFormed
  | wrongType
  deriving DecidableEq

def DocumentError.message : DocumentError → String
  | .notWellFormed => "the document is not well-formed"
  | .wrongType => "a value does not have the type of its setting"

inductive Setting where
  | halfExtent
  | iterations
  | angleDegrees
  | segmentLength
  | initialRadius
  | radiusDecay
  | minRadius
  | leafDistance
  | leafSizeMin
  | leafSizeMax
  | rules
  | durationSecs
  | targetFraction
  | maxStep
  deriving DecidableEq

def Setting.name : Setting → String
  | .halfExtent => "half_extent"
  | .iterations => "iterations"
  | .angleDegrees => "angle_deg"
  | .segmentLength => "segment_length"
  | .initialRadius => "initial_radius"
  | .radiusDecay => "radius_decay"
  | .minRadius => "min_radius"
  | .leafDistance => "leaf_distance_threshold"
  | .leafSizeMin => "leaf_size_min"
  | .leafSizeMax => "leaf_size_max"
  | .rules => "rules"
  | .durationSecs => "duration_secs"
  | .targetFraction => "target_fraction"
  | .maxStep => "max_dt"

/-- More passes than this are refused, because words grow geometrically. -/
def iterationLimit : Nat := 10

inductive Fault (α : Type) where
  | notFinite (value : α)
  | negative (value : α)
  | notPositive (value : α)
  | tooManyIterations (count : Nat)
  | leafSizesCrossed
  | badWeight (symbol : Symbol) (weight : Float32)

/-- Why a configuration or a rule text is refused. -/
inductive ConfigError (α : Type) where
  | unreadable (cause : ReadError)
  | document (cause : DocumentError)
  | rule (cause : RuleError)
  | invalid (setting : Setting) (fault : Fault α)

namespace Fault

def numberText (value : Float32) : String :=
  String.ofList (Decimal.toText value)

def message : Fault Float32 → String
  | .notFinite value => numberText value ++ " is not finite"
  | .negative value => numberText value ++ " is negative"
  | .notPositive value => numberText value ++ " must be greater than zero"
  | .tooManyIterations count =>
      toString count ++ " exceeds the maximum of " ++ toString iterationLimit
  | .leafSizesCrossed => "must not exceed leaf_size_max"
  | .badWeight symbol weight =>
      "symbol \x60" ++ symbol.toString ++ "\x60 has probability " ++ numberText weight

end Fault

def ConfigError.message : ConfigError Float32 → String
  | .unreadable cause => "failed to read config: " ++ cause.message
  | .document cause => "failed to parse TOML: " ++ cause.message
  | .rule cause => cause.message
  | .invalid setting fault =>
      "invalid value for \x60" ++ setting.name ++ "\x60: " ++ fault.message

end Grove
