import Grove.Proofs.Single.Overflow

/-!
# Factors below and above one

Rounding keeps the order, so a number that is not below zero does not get greater by a factor of at
most one, and not smaller by a factor of at least one, even where the product overflows.
-/

set_option autoImplicit false

namespace Grove.Single

open Float.Model (UnpackedFloat)
open Float.Model.UnpackedFloat

namespace Rounds

variable {exact : ℝ} {said : UnpackedFloat}

theorem isNaN (rounds : Rounds exact said) : (encode said).isNaN = false := by
  refine isNaN_encode ?_
  cases rounds.fits with
  | zero | finite => rfl

theorem place_nonneg (rounds : Rounds exact said) (nonneg : 0 ≤ exact) :
    0 ≤ place (encode said) := by
  have above := rounds.least 0 onGrid_zero nonneg
  cases rounds.fits with
  | zero sign => cases sign <;> decide
  | @finite sign significand exponent positive =>
      cases sign with
      | positive => exact place_encode_positive positive
      | negative =>
          have size : (0 : ℝ) < significand * 2 ^ exponent :=
            mul_pos (Nat.cast_pos.mpr positive) (zpow_pos two_pos _)
          rw [amount, factor, neg_one_mul] at above
          linarith

end Rounds

variable {value factor : Float32}

/-- A product with a factor of at most one is finite and not greater. -/
theorem place_mul_le (finite : value.isFinite = true) (nonneg : 0 ≤ place value)
    (factorFinite : factor.isFinite = true) (factorNonneg : 0 ≤ place factor)
    (most : place factor ≤ place 1) :
    (value * factor).isFinite = true ∧ 0 ≤ place (value * factor) ∧
      place (value * factor) ≤ place value := by
  have rounds := rounds_mul finite factorFinite
  have least := reading_nonneg finite nonneg
  have factorLeast := reading_nonneg factorFinite factorNonneg
  have factorMost : reading factor ≤ 1 := reading_one ▸ reading_le factorFinite (by decide) most
  have exactLeast := mul_nonneg least factorLeast
  have exactMost : reading value * reading factor ≤ reading value :=
    mul_le_of_le_one_right least factorMost
  have near : Near (reading value * reading factor) (value * factor) :=
    rounds.near (onGrid_reading value) ((abs_of_nonneg exactLeast).trans_le exactMost)
      ((le_abs_self _).trans_lt (abs_reading_lt value))
  exact ⟨near.finite, rounds.place_nonneg exactLeast,
    place_le_of_reading near.finite finite (near.most _ (onGrid_reading value) exactMost)⟩

theorem infinity_mul (factorFinite : factor.isFinite = true) (positive : 0 < place factor) :
    encode (.infinity .positive) * factor = encode (.infinity .positive) := by
  change encode (UnpackedFloat.mul .binary32 (.infinity .positive) (meaning factor)) = _
  rcases nonneg_number_cases (isFinite_iff_place.mp factorFinite).1 positive.le with
    ⟨-, placed⟩ | ⟨_, -, placed⟩ | ⟨_, _, _, reads, -⟩
  · have below := (isFinite_iff_place.mp factorFinite).2.2
    omega
  · omega
  · rw [reads]
    rfl

/-- A product with a factor of at least one may be infinite, but it is not smaller. -/
theorem le_place_mul (number : value.isNaN = false) (nonneg : 0 ≤ place value)
    (factorFinite : factor.isFinite = true) (least : place 1 ≤ place factor) :
    (value * factor).isNaN = false ∧ place value ≤ place (value * factor) := by
  have positive : 0 < place factor := lt_of_lt_of_le (by decide) least
  cases finite : value.isFinite with
  | false =>
      rcases eq_of_not_finite finite nonneg with rfl | rfl
      · rw [infinity_mul factorFinite positive]
        exact ⟨number, le_rfl⟩
      · cases number
  | true =>
      have rounds := rounds_mul finite factorFinite
      have valueLeast := reading_nonneg finite nonneg
      have factorLeast : 1 ≤ reading factor :=
        reading_one ▸ reading_le (by decide) factorFinite least
      have above : reading value ≤ reading value * reading factor :=
        le_mul_of_one_le_right valueLeast factorLeast
      have productNumber : (value * factor).isNaN = false := rounds.isNaN
      refine ⟨productNumber, ?_⟩
      cases productFinite : (value * factor).isFinite with
      | true =>
          have near := rounds.near_of_finite productFinite
          exact place_le_of_reading finite productFinite (near.least _ (onGrid_reading value) above)
      | false =>
          -- The product has overflown, and nothing finite lies above infinity.
          rcases eq_of_not_finite productFinite (rounds.place_nonneg (valueLeast.trans above)) with
            infinite | notNumber
          · rw [infinite, place_infinity]
            exact (isFinite_iff_place.mp finite).2.2.le
          · rw [notNumber] at productNumber
            cases productNumber

/-! ## The greater of two numbers -/

theorem place_max {left right : Float32} (leftNumber : left.isNaN = false)
    (rightNumber : right.isNaN = false) :
    (Scalar.max left right).isNaN = false ∧
      place (Scalar.max left right) = max (place left) (place right) := by
  unfold Scalar.max
  rw [scalar_isNaN, leftNumber, if_neg Bool.false_ne_true]
  split
  · rename_i below
    exact ⟨rightNumber, (max_eq_right (lt_iff.mp below).2.2.le).symm⟩
  · rename_i notBelow
    have ordered := (le_iff.mp (le_of_numbers rightNumber leftNumber notBelow)).2.2
    exact ⟨leftNumber, (max_eq_left ordered).symm⟩

theorem isFinite_max {left right : Float32} (leftFinite : left.isFinite = true)
    (rightFinite : right.isFinite = true) : (Scalar.max left right).isFinite = true := by
  unfold Scalar.max
  split
  · exact rightFinite
  · split
    · exact rightFinite
    · exact leftFinite

end Grove.Single
