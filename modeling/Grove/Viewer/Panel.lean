import Grove.Decimal.Dyadic
import Grove.Decimal.Reader
import Grove.Viewer.Basic

/-!
# The panel

The panel beside the canvas shows the configuration. Most settings stand in number boxes, each with
a label and a range. A setting that has left its range, by way of a file, is brought back whenever
the panel is shown; a typed number is brought into the range before it is taken over.
-/

set_option autoImplicit false

namespace Grove

inductive CountBox where
  | trees
  | iterations
  deriving DecidableEq

inductive MeasureBox where
  | halfExtent
  | angleDegrees
  | segmentLength
  | initialRadius
  | radiusDecay
  | minRadius
  | leafDistance
  | leafSizeMin
  | leafSizeMax
  | durationSecs
  | targetFraction
  deriving DecidableEq

/-- A change that the panel makes to a configuration. -/
inductive Edit (α : Type) where
  | count (box : CountBox) (value : Nat)
  | measure (box : MeasureBox) (value : α)
  | seed (value : Option UInt64)
  | startWord (word : Word)

namespace CountBox

def all : List CountBox := [.trees, .iterations]

def label : CountBox → String
  | .trees => "count:"
  | .iterations => "iterations:"

/-- The greatest number that the box takes; the least one is zero. -/
def highest : CountBox → Nat
  | .trees => 5000
  | .iterations => iterationLimit

variable {α : Type}

def get (config : Configuration α) : CountBox → Nat
  | .trees => config.planting.count
  | .iterations => config.species.iterations

def set (config : Configuration α) (value : Nat) : CountBox → Configuration α
  | .trees => { config with planting := { config.planting with count := value } }
  | .iterations => { config with species := { config.species with iterations := value } }

def settle (config : Configuration α) (box : CountBox) : Configuration α :=
  box.set config (min (box.get config) box.highest)

end CountBox

namespace MeasureBox

def all : List MeasureBox :=
  [.halfExtent, .angleDegrees, .segmentLength, .initialRadius, .radiusDecay, .minRadius,
   .leafDistance, .leafSizeMin, .leafSizeMax, .durationSecs, .targetFraction]

def label : MeasureBox → String
  | .halfExtent => "half_extent:"
  | .angleDegrees => "angle_deg:"
  | .segmentLength => "segment_length:"
  | .initialRadius => "initial_radius:"
  | .radiusDecay => "radius_decay:"
  | .minRadius => "min_radius:"
  | .leafDistance => "leaf_distance:"
  | .leafSizeMin => "leaf_size_min:"
  | .leafSizeMax => "leaf_size_max:"
  | .durationSecs => "duration_secs:"
  | .targetFraction => "target_fraction:"

variable {α : Type}

def get (config : Configuration α) : MeasureBox → α
  | .halfExtent => config.planting.halfExtent
  | .angleDegrees => config.species.angleDegrees
  | .segmentLength => config.species.segmentLength
  | .initialRadius => config.species.initialRadius
  | .radiusDecay => config.species.radiusDecay
  | .minRadius => config.species.minRadius
  | .leafDistance => config.species.leafDistance
  | .leafSizeMin => config.species.leafSizeMin
  | .leafSizeMax => config.species.leafSizeMax
  | .durationSecs => config.felling.durationSecs
  | .targetFraction => config.felling.targetFraction

/-- The species with another value in one of the boxes. The boxes of planting and felling leave it
as it is. -/
def setSpecies (species : Species α) (value : α) : MeasureBox → Species α
  | .angleDegrees => { species with angleDegrees := value }
  | .segmentLength => { species with segmentLength := value }
  | .initialRadius => { species with initialRadius := value }
  | .radiusDecay => { species with radiusDecay := value }
  | .minRadius => { species with minRadius := value }
  | .leafDistance => { species with leafDistance := value }
  | .leafSizeMin => { species with leafSizeMin := value }
  | .leafSizeMax => { species with leafSizeMax := value }
  | .halfExtent | .durationSecs | .targetFraction => species

def set (config : Configuration α) (value : α) : MeasureBox → Configuration α
  | .halfExtent => { config with planting := { config.planting with halfExtent := value } }
  | .durationSecs => { config with felling := { config.felling with durationSecs := value } }
  | .targetFraction => { config with felling := { config.felling with targetFraction := value } }
  | box => { config with species := box.setSpecies config.species value }

variable [Scalar α]

/-- The least and the greatest number that the box takes. -/
def range : MeasureBox → α × α
  | .halfExtent => (0, 500.0)
  | .angleDegrees => (0, 180.0)
  | .segmentLength => (0.05, 10.0)
  | .initialRadius => (0.01, 2.0)
  | .radiusDecay => (0, 1)
  | .minRadius => (0.001, 1)
  | .leafDistance => (0, 50.0)
  | .leafSizeMin => (0, 5.0)
  | .leafSizeMax => (0, 5.0)
  | .durationSecs => (0.05, 10.0)
  | .targetFraction => (0, 1)

def limit (box : MeasureBox) (value : α) : α :=
  let (low, high) : α × α := box.range
  Scalar.clampTotal value low high

/-- Brings the number of the box into its range. A number that equals its limited value stays as it
is, so that a zero keeps its sign. -/
def settle (config : Configuration α) (box : MeasureBox) : Configuration α :=
  let value := box.get config
  let limited := box.limit value
  if value == limited then config else box.set config limited

end MeasureBox

namespace Edit

def apply {α : Type} (config : Configuration α) : Edit α → Configuration α
  | .count box value => box.set config value
  | .measure box value => box.set config value
  | .seed value => { config with planting := { config.planting with seed := value } }
  | .startWord word => { config with species := { config.species with startWord := word } }

end Edit

namespace Panel

/-- Reads a typed number. Blanks anywhere in it say nothing, and the minus sign of typesetters is
as good as a hyphen. -/
def read? (text : List Char) : Option Decimal.Signed :=
  let hyphenated := fun character => if character = '−' then '-' else character
  Decimal.read? ((text.filter fun character => !Text.isBlank character).map hyphenated)

/-- The number of a count box for a typed number: limited in double precision, and without its
fraction. What is not a number counts as greater than all numbers, and with a minus sign as less. -/
def countOf (box : CountBox) (number : Decimal.Signed) : Nat :=
  match number.reading with
  | .notANumber => if number.negative then 0 else box.highest
  | _ =>
      let highest := Float.ofNat box.highest
      let value := number.toFloat
      if value ≤ 0 then 0
      else if highest ≤ value then box.highest
      else value.toUInt64.toNat

/-- The number of a measure box for a typed number: rounded to double precision, then to single
precision, and limited. What is not a number counts as greater than all numbers, and with a minus
sign as less. -/
def measureOf (box : MeasureBox) (number : Decimal.Signed) : Float32 :=
  match number.reading with
  | .notANumber => if number.negative then box.range.1 else box.range.2
  | _ => box.limit number.toFloat.toFloat32

def shownBits : Nat := 53

/-- The text of the box of the seed. Boxes hold numbers of double precision, so that a long seed is
shown rounded; the seed itself keeps all its digits. -/
def seedText (seed : UInt64) : String :=
  toString (Decimal.roundToBits shownBits seed.toNat)

/-- How far below the upper edge of the panel the box of the rules begins. The headings and the boxes
of planting and of the species stand above it, with one box more while the seed is fixed. -/
def rulesTop {α : Type} [Scalar α] (seed : Option UInt64) : α :=
  if seed.isSome then 414.0 else 393.0

def boxOfLabel? (label : String) : Option (CountBox ⊕ MeasureBox) :=
  match CountBox.all.find? (·.label = label) with
  | some box => some (.inl box)
  | none => (MeasureBox.all.find? (·.label = label)).map .inr

/-- The change that a text makes which is typed into a box. A text that is no number changes
nothing. -/
def typed? (box : CountBox ⊕ MeasureBox) (text : List Char) : Option (Edit Float32) :=
  (read? text).map fun number =>
    match box with
    | .inl box => .count box (countOf box number)
    | .inr box => .measure box (measureOf box number)

end Panel

variable {α : Type} [Scalar α]

def Configuration.settle (config : Configuration α) : Configuration α :=
  let config := CountBox.all.foldl CountBox.settle config
  MeasureBox.all.foldl MeasureBox.settle config

namespace Camera

def settle (camera : Camera α) : Camera α :=
  let limited := Scalar.clampTotal camera.distance minDistance maxDistance
  if camera.distance == limited then camera else { camera with distance := limited }

end Camera

namespace Viewer

/-- Shows the panel and the slider, which brings their numbers into their ranges. -/
def settle (viewer : Viewer α) : Viewer α :=
  { viewer with config := viewer.config.settle, camera := viewer.camera.settle }

end Viewer

end Grove
