import Grove.Turtle

/-!
# Configuration

What a forest is grown from: how many trees stand where, what they look like, and how they fall.
Every part has defaults.
-/

set_option autoImplicit false

namespace Grove

variable {α : Type} [Scalar α]

/-- A species: its grammar, and the measures of its branches and leaves. -/
structure Species (α : Type) where
  startWord : Word
  rules : Rules
  iterations : Nat
  /-- The turn of `+` and `-`, in degrees. -/
  angleDegrees : α
  segmentLength : α
  initialRadius : α
  /-- The factor that `R` thins by. -/
  radiusDecay : α
  minRadius : α
  /-- A segment that ends farther than this from the base ends in a leaf. -/
  leafDistance : α
  leafSizeMin : α
  leafSizeMax : α

namespace Species

/-- A tree with a round crown and forking, thinning limbs. -/
def broadleaf : Species α where
  startWord := "FF".toList
  rules := .ofList
    [('F', ⟨0.5, "FR[+FRL][-FRL]F".toList⟩),
     ('F', ⟨0.3, "FR[+FL]F[-FL]".toList⟩),
     ('F', ⟨0.2, "FR[-FRL]FL".toList⟩)]
  iterations := 3
  angleDegrees := 25.0
  segmentLength := 1.2
  initialRadius := 0.22
  radiusDecay := 0.86
  minRadius := 0.03
  leafDistance := 3.0
  leafSizeMin := 0.5
  leafSizeMax := 1.1

def conifer : Species α where
  startWord := "FFF".toList
  rules := .ofList
    [('F', ⟨0.7, "F[+RRFL][-RRFL]F".toList⟩),
     ('F', ⟨0.3, "FF".toList⟩)]
  iterations := 3
  angleDegrees := 55.0
  segmentLength := 1.0
  initialRadius := 0.18
  radiusDecay := 0.8
  minRadius := 0.03
  leafDistance := 2.5
  leafSizeMin := 0.35
  leafSizeMax := 0.6

def drawingParams (species : Species α) : Turtle.Params α where
  angleStep := Scalar.toRadians species.angleDegrees
  segmentLength := species.segmentLength
  initialRadius := species.initialRadius
  radiusDecay := species.radiusDecay
  minRadius := species.minRadius
  leafDistance := species.leafDistance
  leafSizeMin := species.leafSizeMin
  leafSizeMax := species.leafSizeMax

end Species

structure Felling (α : Type) where
  durationSecs : α
  /-- The final tilt, as a fraction of a right angle. -/
  targetFraction : α
  /-- The longest time that one step may take, if there is a limit. -/
  maxStep : Option α

namespace Felling

def standard : Felling α where
  durationSecs := 2.0
  targetFraction := 0.8
  maxStep := none

/-- The final tilt in radians. -/
def finalAngle (felling : Felling α) : α :=
  felling.targetFraction * Scalar.rightAngle

end Felling

structure Planting (α : Type) where
  count : Nat
  /-- Trees stand at most this far from the centre along each horizontal axis. -/
  halfExtent : α
  /-- The seed of the forest, if it is fixed. -/
  seed : Option UInt64

/-- Three hundred trees over a wide square, different every time. -/
def Planting.standard : Planting α where
  count := 300
  halfExtent := 97.0
  seed := none

/-- A complete configuration. -/
structure Configuration (α : Type) where
  planting : Planting α
  species : Species α
  felling : Felling α

/-- Broadleaf trees, planted and felled by the defaults. -/
def Configuration.standard : Configuration α where
  planting := .standard
  species := .broadleaf
  felling := .standard

end Grove
