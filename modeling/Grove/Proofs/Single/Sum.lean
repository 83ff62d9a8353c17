import Grove.Proofs.Single.Difference

/-!
# Sums that do not fall

Rounding does not carry what lies above a number of single precision below that number. So a number
does not get smaller when another one that is not below zero is added, and the quotient of two such
numbers is not below zero either.
-/

set_option autoImplicit false

namespace Grove.Single

open Float.Model (Format totalExponent UnpackedFloat)
open Float.Model.UnpackedFloat

/-! ## Rounding above a bound -/

theorem le_roundedMantissa (extended : ExtendedMantissa) :
    extended.mantissa ≤ extended.roundedMantissa := by
  unfold ExtendedMantissa.roundedMantissa
  cases extended.accuracy with
  | exact => exact Nat.le_refl _
  | inexact order =>
      cases order with
      | lt => exact Nat.le_refl _
      | eq => exact Nat.le_add_right _ _
      | gt => exact Nat.le_succ _

/-- A positive result is where its significand and exponent say, or it is infinite. -/
theorem le_place_encode {significand : Nat} {exponent bound : Int} (positive : 0 < significand)
    (bounded : significand < 2 ^ 24) (least : -149 ≤ exponent)
    (normal : 2 ^ 23 ≤ significand ∨ exponent = -149) (finite : bound ≤ endPlace)
    (below : bound ≤ finitePlace significand exponent) :
    bound ≤ place (encode (.finite .positive significand exponent positive)) := by
  rcases Int.lt_or_le 104 exponent with large | small
  · have infinite : encode (.finite .positive significand exponent positive) =
        encode (.infinity .positive) := by
      have packed : pack Format.binary32 (.finite .positive significand exponent positive) =
          pack Format.binary32 (.infinity .positive) := by
        unfold pack
        dsimp only
        rw [if_pos]
        simp [Format.exponentBias]
        omega
      exact Float32.toBits_inj.mp (UInt32.toNat_inj.mp (congrArg BitVec.toNat packed))
    rw [infinite]
    exact finite
  · have canonical : Canonical significand exponent := ⟨positive, bounded, least, small, normal⟩
    have reads := meaning_encode canonical .positive
    have number : (encode (.finite .positive significand exponent positive)).isNaN = false :=
      isNaN_encode rfl
    rcases meaning_cases number with
      ⟨_, other, -⟩ | ⟨_, other, -⟩ | ⟨_, _, _, _, other, -, placed⟩
    · cases reads.symm.trans other
    · cases reads.symm.trans other
    · cases reads.symm.trans other
      rw [placed]
      exact below

/-- A significand that has been rounded may fill up; then it has one more digit, and the place is the
same again after that digit has been taken away. -/
theorem le_place_rounded {significand : Nat} {exponent bound : Int}
    (bounded : significand ≤ 2 ^ 24) (least : -149 ≤ exponent)
    (normal : 2 ^ 23 ≤ significand ∨ exponent = -149) (finite : bound ≤ endPlace)
    (positive : 0 < bound) (below : bound ≤ finitePlace significand exponent) :
    bound ≤ place (encode (
      let again := shiftToTargetExponent .binary32 significand exponent .exact
      if empty : again.1.mantissa = 0 then .zero .positive
      else .finite .positive again.1.mantissa again.2 (Nat.pos_of_ne_zero empty))) := by
  have nonzero : significand ≠ 0 := by
    rintro rfl
    unfold finitePlace at below
    omega
  rw [shiftToTargetExponent_eq]
  simp only [mantissa_shiftRight]
  rcases Nat.lt_or_eq_of_le bounded with small | full
  · have digits : significand.log2 < 24 := (Nat.log2_lt nonzero).mpr small
    have noShift : (max (significand.log2 + 1 + exponent - 24) (-149) - exponent).toNat = 0 := by
      omega
    simp only [noShift, Nat.pow_zero, Nat.div_one, dif_neg nonzero, Int.natCast_zero, Int.add_zero]
    exact le_place_encode (Nat.pos_of_ne_zero nonzero) small least normal finite below
  · have digits : significand.log2 = 24 := by
      rw [full]
      exact Nat.log2_two_pow
    have oneShift : (max (significand.log2 + 1 + exponent - 24) (-149) - exponent).toNat = 1 := by
      omega
    have half : significand / 2 ^ 1 = 2 ^ 23 := by omega
    simp only [oneShift, half]
    refine le_place_encode (by decide) (by decide) (by omega) (.inl (Nat.le_refl _)) finite ?_
    unfold finitePlace at below ⊢
    omega

/-- What lies above a number of single precision is not rounded past it. -/
theorem le_place_roundWithAccuracy {value significand : Nat} {exponent top : Int}
    (canonical : Canonical significand top) (least : exponent ≤ top)
    (fine : exponent ≤ Format.binary32.targetExponent (totalExponent value exponent))
    (above : significand * 2 ^ (top - exponent).toNat ≤ value) :
    finitePlace significand top ≤
      place (encode (roundWithAccuracy .binary32 .positive value exponent .exact)) := by
  have finite := canonical.place_before_end
  have placePositive := canonical.place_positive
  obtain ⟨positive, bounded, low, high, normal⟩ := canonical
  have valuePositive : 0 < value :=
    Nat.lt_of_lt_of_le (Nat.mul_pos positive (Nat.two_pow_pos _)) above
  have digits : significand.log2 + (top - exponent).toNat ≤ value.log2 := by
    rw [← log2_mul_two_pow positive]
    have nonzero := Nat.mul_ne_zero (Nat.ne_of_gt positive)
      (Nat.ne_of_gt (Nat.two_pow_pos (top - exponent).toNat))
    exact (Nat.le_log2 (Nat.ne_of_gt valuePositive)).mpr
      (Nat.le_trans (Nat.log2_self_le nonzero) above)
  have normalDigits : 23 ≤ significand.log2 ∨ top = -149 :=
    normal.imp_left (Nat.le_log2 (Nat.ne_of_gt positive)).mpr
  rw [targetExponent_eq] at fine
  unfold totalExponent at fine
  unfold roundWithAccuracy
  rw [shiftToTargetExponent_eq]
  obtain ⟨shift, isShift⟩ : ∃ shift,
      shift = (max (value.log2 + 1 + exponent - 24) (-149) - exponent).toNat := ⟨_, rfl⟩
  rw [← isShift]
  have reached : top ≤ exponent + shift := by omega
  have rounded := le_roundedMantissa ((⟨value, false, false⟩ : ExtendedMantissa) >>> shift)
  rw [mantissa_shiftRight] at rounded
  dsimp only at rounded
  have wide : value ≤ 2 ^ 24 * 2 ^ shift := by
    rw [← Nat.pow_add]
    refine Nat.le_trans (Nat.le_of_lt Nat.lt_log2_self) (Nat.pow_le_pow_right (by decide) ?_)
    omega
  have full : 2 ^ 23 ≤ value / 2 ^ shift ∨ exponent + shift = -149 := by
    rcases Int.lt_or_le (-149) (exponent + shift) with normal | subnormal
    · left
      rw [Nat.le_div_iff_mul_le (Nat.two_pow_pos shift), ← Nat.pow_add]
      refine Nat.le_trans (Nat.pow_le_pow_right (by decide) ?_)
        (Nat.log2_self_le (Nat.ne_of_gt valuePositive))
      omega
    · right
      omega
  have below : finitePlace significand top ≤
      finitePlace ((⟨value, false, false⟩ : ExtendedMantissa) >>> shift).roundedMantissa
        (exponent + shift) := by
    unfold finitePlace
    by_cases same : top = exponent + shift
    · have exactShift : (top - exponent).toNat = shift := by omega
      rw [exactShift] at above
      have quotient := (Nat.le_div_iff_mul_le (Nat.two_pow_pos shift)).mpr above
      omega
    · omega
  exact le_place_rounded (rounded_shift_le wide) (by omega)
    (full.imp_left fun enough => Nat.le_trans enough rounded) (Int.le_of_lt finite) placePositive
    below

theorem le_place_round {value significand : Nat} {exponent top : Int}
    (canonical : Canonical significand top) (least : exponent ≤ top)
    (above : significand * 2 ^ (top - exponent).toNat ≤ value) :
    finitePlace significand top ≤
      place (encode (UnpackedFloat.round .binary32 .positive value exponent)) := by
  have positive : 0 < value :=
    Nat.lt_of_lt_of_le (Nat.mul_pos canonical.positive (Nat.two_pow_pos _)) above
  unfold UnpackedFloat.round decreaseExponent
  dsimp only
  obtain ⟨shift, isShift⟩ : ∃ shift, shift =
      (exponent - Format.binary32.targetExponent (totalExponent value exponent)).toNat := ⟨_, rfl⟩
  rw [← isShift, Nat.shiftLeft_eq]
  have wider : (top - (exponent - shift)).toNat = (top - exponent).toNat + shift := by omega
  refine le_place_roundWithAccuracy canonical (by omega) ?_ ?_
  · rw [totalExponent_shift positive]
    omega
  · rw [wider, Nat.pow_add, ← Nat.mul_assoc]
    exact Nat.mul_le_mul_right _ above

/-! ## Sums and quotients -/

/-- What a number that is not below zero says. -/
theorem nonneg_number_cases {value : Float32} (number : value.isNaN = false)
    (nonneg : 0 ≤ place value) :
    (meaning value = .infinity .positive ∧ place value = endPlace) ∨
    (∃ sign, meaning value = .zero sign ∧ place value = 0) ∨
    ∃ significand exponent positive,
      meaning value = .finite .positive significand exponent positive ∧
        Canonical significand exponent ∧ place value = finitePlace significand exponent := by
  rcases meaning_cases number with
    ⟨sign, reads, placed⟩ | zero | ⟨sign, significand, exponent, positive, reads, canonical, placed⟩
  · cases sign with
    | positive => exact .inl ⟨reads, placed⟩
    | negative =>
        rw [placed] at nonneg
        exact absurd nonneg (by decide)
  · exact .inr (.inl zero)
  · cases sign with
    | positive => exact .inr (.inr ⟨significand, exponent, positive, reads, canonical, placed⟩)
    | negative =>
        have above := canonical.place_positive
        rw [placed] at nonneg
        simp only [Sign.apply] at nonneg
        omega

theorem place_infinity : place (encode (.infinity .positive)) = endPlace := by decide

/-- A number does not get smaller when one that is not below zero is added. -/
theorem le_place_add {left right : Float32} (leftFinite : left.isFinite = true)
    (leftNonneg : 0 ≤ place left) (rightNumber : right.isNaN = false)
    (rightNonneg : 0 ≤ place right) : place left ≤ place (left + right) := by
  obtain ⟨leftNumber, -, belowEnd⟩ := isFinite_iff_place.mp leftFinite
  change _ ≤ place (encode (UnpackedFloat.add .binary32 (meaning left) (meaning right)))
  rcases nonneg_number_cases leftNumber leftNonneg with
    ⟨-, placed⟩ | ⟨sign, reads, placed⟩ | ⟨significand, exponent, positive, reads, canonical, placed⟩
  · omega
  · rw [placed, reads]
    rcases nonneg_number_cases rightNumber rightNonneg with
      ⟨otherReads, -⟩ | ⟨other, otherReads, -⟩ | ⟨_, _, _, otherReads, -⟩
    · rw [otherReads]
      cases sign <;> decide
    · rw [otherReads]
      cases sign <;> cases other <;> decide
    · have same : UnpackedFloat.add .binary32 (.zero sign) (meaning right) = meaning right := by
        rw [otherReads]
        rfl
      rw [same, encode_meaning]
      exact rightNonneg
  · rcases nonneg_number_cases rightNumber rightNonneg with
      ⟨otherReads, -⟩ | ⟨other, otherReads, -⟩ |
        ⟨otherSignificand, otherExponent, _, otherReads, otherCanonical, -⟩
    · rw [reads, otherReads]
      change _ ≤ place (encode (.infinity .positive))
      rw [place_infinity]
      exact Int.le_of_lt belowEnd
    · have same : UnpackedFloat.add .binary32 (meaning left) (meaning right) = meaning left := by
        rw [reads, otherReads]
        rfl
      rw [same, encode_meaning]
    · rw [placed, reads, otherReads]
      unfold UnpackedFloat.add decreaseExponent
      dsimp only
      simp only [Nat.shiftLeft_eq, Sign.apply]
      have shifted := Nat.mul_pos positive
        (Nat.two_pow_pos (exponent - min exponent otherExponent).toNat)
      unfold UnpackedFloat.normalize
      rw [Int.compare_eq_gt.mpr (by omega)]
      exact le_place_round canonical (by omega) (by omega)

theorem place_add_of_zero {left right : Float32} (leftNumber : left.isNaN = false)
    (rightNumber : right.isNaN = false) (zero : place right = 0) :
    place (left + right) = place left := by
  have nothing : ∃ sign, meaning right = .zero sign := by
    rcases meaning_cases rightNumber with
      ⟨sign, -, stands⟩ | ⟨sign, reads, -⟩ | ⟨sign, significand, exponent, -, -, canonical, stands⟩
    · cases sign <;> exact absurd (stands.symm.trans zero) (by decide)
    · exact ⟨sign, reads⟩
    · have positive := canonical.place_positive
      rw [stands] at zero
      cases sign <;> simp only [Sign.apply] at zero <;> omega
  obtain ⟨sign, reads⟩ := nothing
  have sum : left + right = encode (UnpackedFloat.add .binary32 (meaning left) (.zero sign)) := by
    rw [← reads]
    rfl
  have again := encode_meaning left
  rw [sum]
  cases said : meaning left with
  | notANumber =>
      rw [isNaN_eq, said] at leftNumber
      cases leftNumber
  | infinity other => rw [← again, said]; rfl
  | finite other significand exponent positive => rw [← again, said]; rfl
  | zero other =>
      rw [← again, said]
      cases other <;> cases sign <;> decide

theorem place_encode_positive {significand : Nat} {exponent : Int} (positive : 0 < significand) :
    0 ≤ place (encode (.finite .positive significand exponent positive)) := by
  have field :
      signField (encode (.finite .positive significand exponent positive)) = 0 := by
    rw [signField, toBits_encode, pack]
    dsimp only
    split
    · decide
    · have small : ∀ (exponent : BitVec 8) (fraction : BitVec 23),
          (packComponents Format.binary32 .positive exponent fraction).toNat < 2 ^ 31 := by
        intro exponent fraction
        have low := fraction.isLt
        have middle := exponent.isLt
        have unsigned : Sign.positive.toBitVec.toNat = 0 := rfl
        rw [packComponents_toNat, unsigned]
        omega
      split
      · exact Nat.div_eq_of_lt (small _ _)
      · exact Nat.div_eq_of_lt (small _ _)
  unfold place
  rw [@sign_eq_of_signField _ .positive field]
  exact Int.natCast_nonneg _

/-- The quotient of numbers that are not below zero is not below zero. -/
theorem place_div_nonneg {left right : Float32} (leftNumber : left.isNaN = false)
    (leftNonneg : 0 ≤ place left) (rightFinite : right.isFinite = true)
    (rightPositive : 0 < place right) : 0 ≤ place (left / right) := by
  obtain ⟨rightNumber, -, belowEnd⟩ := isFinite_iff_place.mp rightFinite
  change _ ≤ place (encode (UnpackedFloat.div .binary32 (meaning left) (meaning right)))
  rcases nonneg_number_cases rightNumber (Int.le_of_lt rightPositive) with
    ⟨-, placed⟩ | ⟨_, -, placed⟩ | ⟨significand, exponent, positive, reads, -, -⟩
  · omega
  · omega
  · rw [reads]
    rcases nonneg_number_cases leftNumber leftNonneg with
      ⟨otherReads, -⟩ | ⟨other, otherReads, -⟩ | ⟨_, _, _, otherReads, -⟩
    · rw [otherReads]
      change 0 ≤ place (encode (.infinity .positive))
      decide
    · rw [otherReads]
      change 0 ≤ place (encode (.zero (other / .positive)))
      cases other <;> decide
    · rw [otherReads]
      change 0 ≤ place (encode (roundWithAccuracy _ .positive _ _ _))
      unfold roundWithAccuracy
      dsimp only
      split
      · decide
      · exact place_encode_positive _

/-! ## Limits -/

theorem place_max_zero_nonneg (value : Float32) : 0 ≤ place (Scalar.max value 0) := by
  unfold Scalar.max
  rw [scalar_isNaN]
  cases numeric : value.isNaN with
  | true => exact Int.le_of_eq place_zero.symm
  | false =>
      rw [if_neg Bool.false_ne_true]
      split
      · exact Int.le_of_eq place_zero.symm
      · rename_i notBelow
        exact (not_lt_zero_iff numeric).mp notBelow

/-- What lies above a number of the unit interval is not moved below it. -/
theorem le_place_clamp {value : Float32} (number : value.isNaN = false) {bound : Int}
    (least : 0 ≤ bound) (most : bound ≤ place 1) (below : bound ≤ place value) :
    bound ≤ place (Scalar.clamp value 0 1) := by
  have notBelow : ¬ value < 0 := (not_lt_zero_iff number).mpr (Int.le_trans least below)
  unfold Scalar.clamp
  rw [if_neg notBelow]
  dsimp only
  split
  · exact most
  · exact below

end Grove.Single
