import Grove.Config.Basic
import Grove.Config.Error

/-!
# Valid configurations

The ranges of the settings. The first setting out of its range is reported, in the order of the
checks: the extent of the forest, then the species, then the fall.
-/

set_option autoImplicit false

namespace Grove

variable {α : Type} [Scalar α]

namespace Setting

def checkFinite (setting : Setting) (value : α) : Except (ConfigError α) Unit :=
  if Scalar.isFinite value then .ok () else .error (.invalid setting (.notFinite value))

def checkNonNegative (setting : Setting) (value : α) : Except (ConfigError α) Unit := do
  setting.checkFinite value
  if value < 0 then throw (.invalid setting (.negative value))

def checkPositive (setting : Setting) (value : α) : Except (ConfigError α) Unit := do
  setting.checkFinite value
  if value ≤ 0 then throw (.invalid setting (.notPositive value))

end Setting

/-- Whether a weight is finite and not below zero. -/
def Production.hasValidWeight (production : Production) : Bool :=
  production.weight.isFinite && !decide (production.weight < 0)

/-- The first production whose weight is out of range, with its symbol. -/
def Rules.badProduction? (rules : Rules) : Option (Symbol × Production) :=
  rules.entries.findSome? fun (symbol, productions) =>
    (productions.find? fun production => !production.hasValidWeight).map (symbol, ·)

def Species.validate (species : Species α) : Except (ConfigError α) Unit := do
  if iterationLimit < species.iterations then
    throw (.invalid .iterations (.tooManyIterations species.iterations))
  Setting.angleDegrees.checkFinite species.angleDegrees
  Setting.segmentLength.checkPositive species.segmentLength
  Setting.initialRadius.checkPositive species.initialRadius
  Setting.radiusDecay.checkPositive species.radiusDecay
  Setting.minRadius.checkPositive species.minRadius
  Setting.leafDistance.checkNonNegative species.leafDistance
  Setting.leafSizeMin.checkPositive species.leafSizeMin
  Setting.leafSizeMax.checkPositive species.leafSizeMax
  if species.leafSizeMax < species.leafSizeMin then
    throw (.invalid .leafSizeMin .leafSizesCrossed)
  match species.rules.badProduction? with
  | some (symbol, production) => throw (.invalid .rules (.badWeight symbol production.weight))
  | none => return ()

def Felling.validate (felling : Felling α) : Except (ConfigError α) Unit := do
  Setting.durationSecs.checkPositive felling.durationSecs
  Setting.targetFraction.checkNonNegative felling.targetFraction
  match felling.maxStep with
  | some maxStep => Setting.maxStep.checkPositive maxStep
  | none => return ()

def Configuration.validate (config : Configuration α) : Except (ConfigError α) Unit := do
  Setting.halfExtent.checkNonNegative config.planting.halfExtent
  config.species.validate
  config.felling.validate

end Grove
