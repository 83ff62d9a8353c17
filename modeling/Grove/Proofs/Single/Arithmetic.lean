import Grove.Proofs.Single.Order

/-!
# What is not a number

Sums and quotients of numbers are numbers, apart from the few that the infinities and zero spoil.
A value that has been moved into the unit interval is where it should be, as long as it was a
number.
-/

set_option autoImplicit false

namespace Grove.Single

open Float.Model (Format UnpackedFloat)
open Float.Model.UnpackedFloat

theorem roundWithAccuracy_isNaN (spec : Format) (sign : Sign) (significand : Nat) (exponent : Int)
    (accuracy : Accuracy) :
    (roundWithAccuracy spec sign significand exponent accuracy).isNaN = false := by
  unfold roundWithAccuracy
  dsimp only
  split <;> rfl

theorem normalize_isNaN (spec : Format) (significand exponent : Int) (sign : Sign) :
    (UnpackedFloat.normalize spec significand exponent sign).isNaN = false := by
  unfold UnpackedFloat.normalize
  split
  · exact roundWithAccuracy_isNaN ..
  · rfl
  · exact roundWithAccuracy_isNaN ..

/-- Only infinities add up to what is not a number. -/
theorem add_isNaN {left right : Float32} (leftFinite : left.isFinite = true)
    (rightNumber : right.isNaN = false) : (left + right).isNaN = false := by
  apply @isNaN_encode (UnpackedFloat.add .binary32 (meaning left) (meaning right))
  have leftSaid : (meaning left).isFinite = true := leftFinite
  have rightSaid : (meaning right).isNaN = false := rightNumber
  cases leftMeaning : meaning left with
  | notANumber => rw [leftMeaning] at leftSaid; cases leftSaid
  | infinity sign => rw [leftMeaning] at leftSaid; cases leftSaid
  | zero sign =>
      cases rightMeaning : meaning right with
      | notANumber => rw [rightMeaning] at rightSaid; cases rightSaid
      | infinity other => rfl
      | zero other => cases sign <;> cases other <;> rfl
      | finite other significand exponent positive => rfl
  | finite sign significand exponent positive =>
      cases rightMeaning : meaning right with
      | notANumber => rw [rightMeaning] at rightSaid; cases rightSaid
      | infinity other => rfl
      | zero other => rfl
      | finite other otherSignificand otherExponent otherPositive => exact normalize_isNaN ..

theorem div_isNaN {left right : Float32} (leftNumber : left.isNaN = false)
    (rightFinite : right.isFinite = true) (nonzero : place right ≠ 0) :
    (left / right).isNaN = false := by
  apply @isNaN_encode (UnpackedFloat.div .binary32 (meaning left) (meaning right))
  have leftSaid : (meaning left).isNaN = false := leftNumber
  have rightSaid : (meaning right).isFinite = true := rightFinite
  rcases meaning_cases (isFinite_iff_place.mp rightFinite).1 with
    ⟨sign, reads, -⟩ | ⟨sign, reads, placed⟩ | ⟨sign, significand, exponent, positive, reads, -, -⟩
  · rw [reads] at rightSaid
    cases rightSaid
  · exact absurd placed nonzero
  · rw [reads]
    cases leftMeaning : meaning left with
    | notANumber => rw [leftMeaning] at leftSaid; cases leftSaid
    | infinity other => rfl
    | zero other => rfl
    | finite other otherSignificand otherExponent otherPositive =>
        exact roundWithAccuracy_isNaN ..

theorem max_zero_isNaN (value : Float32) : (Scalar.max value 0).isNaN = false := by
  unfold Scalar.max
  rw [scalar_isNaN]
  cases numeric : value.isNaN with
  | true => exact zero_isNaN
  | false =>
      by_cases negative : value < 0
      · rw [if_neg Bool.false_ne_true, if_pos negative]
        exact zero_isNaN
      · rw [if_neg Bool.false_ne_true, if_neg negative]
        exact numeric

theorem clamp_unit {value : Float32} (number : value.isNaN = false) :
    (Scalar.clamp value 0 1).isNaN = false ∧
      0 ≤ place (Scalar.clamp value 0 1) ∧ place (Scalar.clamp value 0 1) ≤ place 1 := by
  have zeroPlace := place_zero
  have onePlace := place_one
  by_cases negative : value < 0
  · have clamped : Scalar.clamp value 0 1 = 0 := by
      unfold Scalar.clamp
      simp only [if_pos negative]
      rfl
    rw [clamped]
    exact ⟨zero_isNaN, by omega, by omega⟩
  · by_cases great : 1 < value
    · have clamped : Scalar.clamp value 0 1 = 1 := by
        unfold Scalar.clamp
        simp only [if_neg negative, if_pos great]
      rw [clamped]
      exact ⟨one_isNaN, by omega, by omega⟩
    · have clamped : Scalar.clamp value 0 1 = value := by
        unfold Scalar.clamp
        simp only [if_neg negative, if_neg great]
      rw [clamped]
      rw [lt_iff] at negative great
      have zeroNumber := zero_isNaN
      have oneNumber := one_isNaN
      refine ⟨number, ?_, ?_⟩
      · apply Decidable.byContradiction
        intro below
        exact negative ⟨number, zeroNumber, by omega⟩
      · apply Decidable.byContradiction
        intro above
        exact great ⟨oneNumber, number, by omega⟩

theorem clampTotal_place {value low high : Float32} (number : value.isNaN = false)
    (lowNumber : low.isNaN = false) (highNumber : high.isNaN = false)
    (ordered : place low ≤ place high) :
    (Scalar.clampTotal value low high).isNaN = false ∧
      place (Scalar.clampTotal value low high) =
        max (place low) (min (place value) (place high)) := by
  unfold Scalar.clampTotal
  rw [scalar_isNaN, number, if_neg Bool.false_ne_true]
  by_cases atLow : value ≤ low
  · rw [if_pos atLow]
    have under := (le_iff.mp atLow).2.2
    exact ⟨lowNumber, by omega⟩
  · rw [if_neg atLow]
    have higher : place low < place value := by
      rw [le_iff] at atLow
      exact Int.not_le.mp fun under => atLow ⟨number, lowNumber, under⟩
    by_cases atHigh : high ≤ value
    · rw [if_pos atHigh]
      have above := (le_iff.mp atHigh).2.2
      exact ⟨highNumber, by omega⟩
    · rw [if_neg atHigh]
      have below : place value < place high := by
        rw [le_iff] at atHigh
        exact Int.not_le.mp fun above => atHigh ⟨highNumber, number, above⟩
      exact ⟨number, by omega⟩

end Grove.Single
