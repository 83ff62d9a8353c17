import Grove.Proofs.Single.Rounding

/-!
# Finite differences

The difference of two finite numbers that are not below zero is not farther from zero than one of
them, and rounding does not carry it past that number. So it is finite.
-/

set_option autoImplicit false

namespace Grove.Single

open Float.Model (Format totalExponent UnpackedFloat)
open Float.Model.UnpackedFloat

/-! ## Rounding below a bound -/

theorem mantissa_shiftRight (extended : ExtendedMantissa) (shift : Nat) :
    (extended >>> shift).mantissa = extended.mantissa / 2 ^ shift := by
  change (shift.repeat ExtendedMantissa.shiftRightOne extended).mantissa = _
  induction shift with
  | zero => simp [Nat.repeat]
  | succ shift induction =>
      simp only [Nat.repeat, ExtendedMantissa.shiftRightOne, induction, Nat.div_div_eq_div_mul,
        Nat.pow_succ]

theorem roundedMantissa_le (extended : ExtendedMantissa) :
    extended.roundedMantissa ≤ extended.mantissa + 1 := by
  unfold ExtendedMantissa.roundedMantissa
  cases extended.accuracy with
  | exact => exact Nat.le_succ _
  | inexact order =>
      cases order with
      | lt => exact Nat.le_succ _
      | eq => exact Nat.add_le_add_left (Nat.le_of_lt_succ (Nat.mod_lt _ (by decide))) _
      | gt => exact Nat.le_refl _

/-- What lies below an integer is not rounded past it. -/
theorem rounded_shift_le {value bound shift : Nat} (below : value ≤ bound * 2 ^ shift) :
    ((⟨value, false, false⟩ : ExtendedMantissa) >>> shift).roundedMantissa ≤ bound := by
  have quotient : value / 2 ^ shift ≤ bound :=
    Nat.div_le_of_le_mul (by rwa [Nat.mul_comm])
  rcases Nat.lt_or_eq_of_le quotient with less | same
  · have rounded := roundedMantissa_le ((⟨value, false, false⟩ : ExtendedMantissa) >>> shift)
    rw [mantissa_shiftRight] at rounded
    exact Nat.le_trans rounded less
  · have exactly : value = bound * 2 ^ shift :=
      Nat.le_antisymm below (same ▸ Nat.div_mul_le_self value (2 ^ shift))
    rw [exactly, shiftRight_exact]
    exact Nat.le_refl bound

theorem log2_le_of_lt {value bits : Nat} (small : value < 2 ^ (bits + 1)) : value.log2 ≤ bits := by
  rcases Nat.eq_zero_or_pos value with rfl | positive
  · simp
  · exact Nat.le_of_lt_succ ((Nat.log2_lt (Nat.ne_of_gt positive)).mpr small)

/-! ## Finite results -/

theorem isFinite_encode_finite {sign : Sign} {significand : Nat} {exponent : Int}
    (positive : 0 < significand) (small : exponent ≤ 104) :
    (encode (.finite sign significand exponent positive)).isFinite = true := by
  have one : sign.toBitVec.toNat ≤ 1 := by cases sign <;> decide
  rw [isFinite_iff, exponentField, toBits_encode, pack]
  dsimp only
  rw [if_neg (by simp [Format.exponentBias]; omega)]
  split
  · rw [packComponents_toNat]
    simp [Format.exponentBias]
    omega
  · rw [packComponents_toNat]
    simp
    omega

theorem isFinite_encode_zero (sign : Sign) : (encode (.zero sign)).isFinite = true := by
  cases sign <;> decide

theorem shiftToTargetExponent_eq (value : Nat) (exponent : Int) :
    shiftToTargetExponent .binary32 value exponent .exact =
      ((⟨value, false, false⟩ : ExtendedMantissa) >>>
          (max (value.log2 + 1 + exponent - 24) (-149) - exponent).toNat,
        exponent + (max (value.log2 + 1 + exponent - 24) (-149) - exponent).toNat) :=
  rfl

theorem isFinite_roundWithAccuracy (sign : Sign) {value significand : Nat} {exponent top : Int}
    (canonical : Canonical significand top) (least : exponent ≤ top)
    (below : value ≤ significand * 2 ^ (top - exponent).toNat) :
    (encode (roundWithAccuracy .binary32 sign value exponent .exact)).isFinite = true := by
  obtain ⟨-, bounded, low, high, -⟩ := canonical
  have digits : value.log2 ≤ 23 + (top - exponent).toNat := by
    refine log2_le_of_lt (Nat.lt_of_le_of_lt below ?_)
    rw [Nat.add_right_comm, Nat.pow_add]
    exact Nat.mul_lt_mul_of_pos_right bounded (Nat.two_pow_pos _)
  unfold roundWithAccuracy
  rw [shiftToTargetExponent_eq]
  dsimp only
  rw [shiftToTargetExponent_eq]
  dsimp only
  obtain ⟨shift, isShift⟩ : ∃ shift,
      shift = (max (value.log2 + 1 + exponent - 24) (-149) - exponent).toNat := ⟨_, rfl⟩
  rw [← isShift]
  split
  · exact isFinite_encode_zero sign
  · refine isFinite_encode_finite _ ?_
    -- Rounding may fill the significand up, but not where there is no room for one more digit.
    by_cases full : exponent + shift = top
    · have exactShift : (top - exponent).toNat = shift := by omega
      have rounded := log2_le_of_lt (Nat.lt_of_le_of_lt (rounded_shift_le (exactShift ▸ below))
        bounded)
      omega
    · have wide : value ≤ 2 ^ 24 * 2 ^ shift := by
        rw [← Nat.pow_add]
        refine Nat.le_trans (Nat.le_of_lt Nat.lt_log2_self) (Nat.pow_le_pow_right (by decide) ?_)
        omega
      have rounded := log2_le_of_lt (Nat.lt_of_le_of_lt (rounded_shift_le wide)
        (by decide : 2 ^ 24 < 2 ^ (24 + 1)))
      omega

theorem isFinite_round (sign : Sign) {value significand : Nat} {exponent top : Int}
    (canonical : Canonical significand top) (least : exponent ≤ top)
    (below : value ≤ significand * 2 ^ (top - exponent).toNat) :
    (encode (UnpackedFloat.round .binary32 sign value exponent)).isFinite = true := by
  unfold UnpackedFloat.round decreaseExponent
  dsimp only
  obtain ⟨shift, isShift⟩ : ∃ shift, shift =
      (exponent - Format.binary32.targetExponent (totalExponent value exponent)).toNat := ⟨_, rfl⟩
  rw [← isShift, Nat.shiftLeft_eq]
  refine isFinite_roundWithAccuracy sign canonical (by omega) ?_
  have wider : (top - (exponent - shift)).toNat = (top - exponent).toNat + shift := by omega
  rw [wider, Nat.pow_add, ← Nat.mul_assoc]
  exact Nat.mul_le_mul_right _ below

theorem isFinite_normalize {value : Int} {significand : Nat} {exponent top : Int}
    (canonical : Canonical significand top) (least : exponent ≤ top)
    (below : value.natAbs ≤ significand * 2 ^ (top - exponent).toNat) :
    (encode (UnpackedFloat.normalize .binary32 value exponent .positive)).isFinite = true := by
  unfold UnpackedFloat.normalize
  split
  · exact isFinite_round .negative canonical least (by omega)
  · exact isFinite_encode_zero .positive
  · exact isFinite_round .positive canonical least (by omega)

/-- What a finite number that is not below zero says. -/
theorem nonneg_cases {value : Float32} (finite : value.isFinite = true) (nonneg : 0 ≤ place value) :
    (∃ sign, meaning value = .zero sign) ∨
    ∃ significand exponent positive,
      meaning value = .finite .positive significand exponent positive ∧
        Canonical significand exponent := by
  have number := (isFinite_iff_place.mp finite).1
  rcases meaning_cases number with
    ⟨sign, reads, -⟩ | ⟨sign, reads, -⟩ | ⟨sign, significand, exponent, positive, reads, canonical, placed⟩
  · have said : (meaning value).isFinite = true := finite
    rw [reads] at said
    cases said
  · exact .inl ⟨sign, reads⟩
  · have above := canonical.place_positive
    cases sign with
    | positive => exact .inr ⟨significand, exponent, positive, reads, canonical⟩
    | negative =>
        rw [placed] at nonneg
        simp only [Sign.apply] at nonneg
        omega

theorem sub_isFinite {left right : Float32} (leftFinite : left.isFinite = true)
    (rightFinite : right.isFinite = true) (leftNonneg : 0 ≤ place left)
    (rightNonneg : 0 ≤ place right) : (right - left).isFinite = true := by
  change (encode (UnpackedFloat.sub .binary32 (meaning right) (meaning left))).isFinite = true
  rcases nonneg_cases rightFinite rightNonneg with
    ⟨sign, reads⟩ | ⟨significand, exponent, positive, reads, canonical⟩
  · rcases nonneg_cases leftFinite leftNonneg with
      ⟨other, otherReads⟩ | ⟨_, _, positive, otherReads, canonical⟩
    · rw [reads, otherReads]
      cases sign <;> cases other <;> decide
    · rw [reads, otherReads]
      exact isFinite_encode_finite positive canonical.greatest
  · rcases nonneg_cases leftFinite leftNonneg with
      ⟨other, otherReads⟩ | ⟨otherSignificand, otherExponent, _, otherReads, otherCanonical⟩
    · rw [reads, otherReads]
      exact isFinite_encode_finite positive canonical.greatest
    · rw [reads, otherReads]
      unfold UnpackedFloat.sub decreaseExponent
      dsimp only
      simp only [Nat.shiftLeft_eq, Sign.apply]
      -- The greater of the two bounds the difference.
      rcases Nat.le_total
        (otherSignificand * 2 ^ (otherExponent - min exponent otherExponent).toNat)
        (significand * 2 ^ (exponent - min exponent otherExponent).toNat) with greater | greater
      · exact isFinite_normalize canonical (by omega) (by omega)
      · exact isFinite_normalize otherCanonical (by omega) (by omega)

/-! ## Opposites -/

theorem place_opposite {significand : Nat} {exponent : Int}
    (canonical : Canonical significand exponent) :
    place (encode (.finite .negative significand exponent canonical.positive)) ≤ 0 := by
  have reads := meaning_encode canonical .negative
  have above := canonical.place_positive
  have number : (encode (.finite .negative significand exponent canonical.positive)).isNaN =
      false := isNaN_encode rfl
  rcases meaning_cases number with
    ⟨sign, other, -⟩ | ⟨sign, -, placed⟩ | ⟨sign, _, _, _, other, -, placed⟩
  · cases reads.symm.trans other
  · exact Int.le_of_eq placed
  · cases reads.symm.trans other
    rw [placed]
    simp only [Sign.apply]
    omega

/-- A number that is not below zero is not below its opposite. -/
theorem neg_le_self {value : Float32} (finite : value.isFinite = true)
    (nonneg : 0 ≤ place value) : -value ≤ value := by
  have number := (isFinite_iff_place.mp finite).1
  have below : (-value).isNaN = false ∧ place (-value) ≤ 0 := by
    change (encode (meaning value).neg).isNaN = false ∧ place (encode (meaning value).neg) ≤ 0
    rcases nonneg_cases finite nonneg with ⟨sign, reads⟩ | ⟨_, _, positive, reads, canonical⟩
    · rw [reads]
      cases sign <;> decide
    · rw [reads]
      exact ⟨isNaN_encode rfl, place_opposite canonical⟩
  exact le_iff.mpr ⟨below.1, number, Int.le_trans below.2 nonneg⟩

end Grove.Single
