import Grove.Config.Document
import Grove.Proofs.Except

/-!
# What valid settings satisfy

A check that succeeds says that a setting is finite, and where it matters not below zero, or above
zero. The checks of a whole configuration succeed exactly when all of these hold together.
-/

set_option autoImplicit false

namespace Grove

variable {α : Type} [Scalar α]

namespace Setting

theorem checkFinite_eq_ok_iff (setting : Setting) (value : α) :
    setting.checkFinite value = .ok () ↔ Scalar.isFinite value = true := by
  unfold checkFinite
  cases Scalar.isFinite value <;> simp

theorem checkNonNegative_eq_ok_iff (setting : Setting) (value : α) :
    setting.checkNonNegative value = .ok () ↔ Scalar.isFinite value = true ∧ ¬ value < 0 := by
  unfold checkNonNegative
  rw [Except.check_eq_ok_iff, checkFinite_eq_ok_iff, Except.refuse_eq_ok_iff]

theorem checkPositive_eq_ok_iff (setting : Setting) (value : α) :
    setting.checkPositive value = .ok () ↔ Scalar.isFinite value = true ∧ ¬ value ≤ 0 := by
  unfold checkPositive
  rw [Except.check_eq_ok_iff, checkFinite_eq_ok_iff, Except.refuse_eq_ok_iff]

end Setting

structure Species.Valid (species : Species α) : Prop where
  iterations : species.iterations ≤ iterationLimit
  angleDegrees : Scalar.isFinite species.angleDegrees = true
  segmentLength : Scalar.isFinite species.segmentLength = true ∧ ¬species.segmentLength ≤ 0
  initialRadius : Scalar.isFinite species.initialRadius = true ∧ ¬species.initialRadius ≤ 0
  radiusDecay : Scalar.isFinite species.radiusDecay = true ∧ ¬species.radiusDecay ≤ 0
  minRadius : Scalar.isFinite species.minRadius = true ∧ ¬species.minRadius ≤ 0
  leafDistance : Scalar.isFinite species.leafDistance = true ∧ ¬species.leafDistance < 0
  leafSizeMin : Scalar.isFinite species.leafSizeMin = true ∧ ¬species.leafSizeMin ≤ 0
  leafSizeMax : Scalar.isFinite species.leafSizeMax = true ∧ ¬species.leafSizeMax ≤ 0
  leafSizes : ¬species.leafSizeMax < species.leafSizeMin
  rules : species.rules.badProduction? = none

theorem Species.validate_eq_ok_iff (species : Species α) :
    species.validate = .ok () ↔ species.Valid := by
  unfold Species.validate
  simp only [Except.check_eq_ok_iff, Except.guard_eq_ok_iff, Setting.checkFinite_eq_ok_iff,
    Setting.checkPositive_eq_ok_iff, Setting.checkNonNegative_eq_ok_iff, Nat.not_lt]
  constructor
  · rintro ⟨iterations, angle, segment, radius, decay, least, leaf, small, large, sizes, weights⟩
    refine ⟨iterations, angle, segment, radius, decay, least, leaf, small, large, sizes, ?_⟩
    split at weights
    · cases weights
    · assumption
  · rintro ⟨iterations, angle, segment, radius, decay, least, leaf, small, large, sizes, weights⟩
    refine ⟨iterations, angle, segment, radius, decay, least, leaf, small, large, sizes, ?_⟩
    rw [weights]
    rfl

structure Felling.Valid (felling : Felling α) : Prop where
  durationSecs : Scalar.isFinite felling.durationSecs = true ∧ ¬felling.durationSecs ≤ 0
  targetFraction : Scalar.isFinite felling.targetFraction = true ∧ ¬felling.targetFraction < 0
  maxStep : ∀ maxStep, felling.maxStep = some maxStep →
    Scalar.isFinite maxStep = true ∧ ¬maxStep ≤ 0

theorem Felling.validate_eq_ok_iff (felling : Felling α) :
    felling.validate = .ok () ↔ felling.Valid := by
  unfold Felling.validate
  simp only [Except.check_eq_ok_iff, Setting.checkPositive_eq_ok_iff,
    Setting.checkNonNegative_eq_ok_iff]
  constructor
  · rintro ⟨duration, target, limit⟩
    refine ⟨duration, target, fun maxStep given => ?_⟩
    rw [given] at limit
    exact (Setting.checkPositive_eq_ok_iff .maxStep maxStep).mp limit
  · rintro ⟨duration, target, limit⟩
    refine ⟨duration, target, ?_⟩
    split
    · rename_i maxStep given
      exact (Setting.checkPositive_eq_ok_iff .maxStep maxStep).mpr (limit maxStep given)
    · rfl

structure Configuration.Valid (config : Configuration α) : Prop where
  halfExtent : Scalar.isFinite config.planting.halfExtent = true ∧ ¬config.planting.halfExtent < 0
  species : config.species.Valid
  felling : config.felling.Valid

theorem Configuration.validate_eq_ok_iff (config : Configuration α) :
    config.validate = .ok () ↔ config.Valid := by
  unfold Configuration.validate
  rw [Except.check_eq_ok_iff, Except.check_eq_ok_iff, Setting.checkNonNegative_eq_ok_iff,
    Species.validate_eq_ok_iff, Felling.validate_eq_ok_iff]
  exact ⟨fun ⟨halfExtent, species, felling⟩ => ⟨halfExtent, species, felling⟩,
    fun ⟨halfExtent, species, felling⟩ => ⟨halfExtent, species, felling⟩⟩

theorem Configuration.validate_of_parse {text : List Char} {config : Configuration Float32}
    (parsed : Configuration.parse text = .ok config) : config.validate = .ok () := by
  unfold Configuration.parse at parsed
  split at parsed
  · split at parsed
    · obtain ⟨_, valid, parsed⟩ := Except.bind_eq_ok_iff.mp parsed
      cases parsed
      exact valid
    · cases parsed
  · cases parsed

end Grove
