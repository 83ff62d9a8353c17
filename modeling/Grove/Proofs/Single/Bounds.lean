import Grove.Proofs.Single.Operations

/-!
# Bounds of results

Finite results have finite operands, exact results that are on the grid are not rounded, and the
order of single precision is that of the real numbers read. So what stays between zero and one in
exact arithmetic stays there in single precision.
-/

set_option autoImplicit false

namespace Grove.Single

open Float.Model (UnpackedFloat)
open Float.Model.UnpackedFloat

/-! ## Exact results -/

theorem reading_zero : reading 0 = 0 :=
  @reading_of_zero 0 .positive rfl

theorem reading_one : reading 1 = 1 := by
  have said : meaning 1 = .finite .positive (2 ^ 23) (-23) (by decide) := rfl
  rw [reading_of_finite said]
  norm_num [factor]

theorem onGrid_reading (value : Float32) : OnGrid (reading value) := by
  cases finite : value.isFinite with
  | true =>
      rcases finite_cases finite with
        ⟨sign, reads, -⟩ | ⟨sign, significand, exponent, _, reads, canonical, -⟩
      · exact reading_of_zero reads ▸ onGrid_zero
      · have bounded := canonical.bounded
        have grid : OnGrid ((significand : ℝ) * 2 ^ exponent) :=
          ⟨significand, exponent, by rw [Nat.abs_cast]; omega, canonical.least, by norm_cast⟩
        rw [reading_of_finite reads]
        cases sign with
        | positive => simpa only [factor, one_mul] using grid
        | negative => simpa only [factor, neg_one_mul] using grid.neg
  | false => exact reading_of_not_finite finite ▸ onGrid_zero

/-- A result that the digits suffice for is not rounded. -/
theorem Rounds.reading_eq {exact : ℝ} {said : UnpackedFloat} (rounds : Rounds exact said)
    (grid : OnGrid exact) (small : |exact| < 2 ^ 128) :
    (encode said).isFinite = true ∧ reading (encode said) = exact := by
  have near : Near exact (encode said) := rounds.near grid.abs le_rfl small
  exact ⟨near.finite, near.eq_of_onGrid grid⟩

theorem Rounds.near_two_zpow {exact : ℝ} {said : UnpackedFloat} (rounds : Rounds exact said)
    {exponent : ℤ} (below : |exact| ≤ 2 ^ exponent) (least : -149 ≤ exponent)
    (most : exponent < 128) : Near exact (encode said) :=
  rounds.near (onGrid_two_zpow least) below (by
    rw [← zpow_natCast]
    exact zpow_lt_zpow_right₀ one_lt_two most)

theorem finite_mul_one {value : Float32} (finite : value.isFinite = true) :
    (value * 1).isFinite = true ∧ reading (value * 1) = reading value := by
  have rounds := rounds_mul finite (by decide : (1 : Float32).isFinite = true)
  rw [reading_one, mul_one] at rounds
  exact rounds.reading_eq (onGrid_reading value) (abs_reading_lt value)

theorem finite_one_mul {value : Float32} (finite : value.isFinite = true) :
    (1 * value).isFinite = true ∧ reading (1 * value) = reading value := by
  have rounds := rounds_mul (by decide : (1 : Float32).isFinite = true) finite
  rw [reading_one, one_mul] at rounds
  exact rounds.reading_eq (onGrid_reading value) (abs_reading_lt value)

theorem finite_mul_of_zero {left right : Float32} (leftFinite : left.isFinite = true)
    (rightFinite : right.isFinite = true) (zero : reading left = 0 ∨ reading right = 0) :
    (left * right).isFinite = true ∧ reading (left * right) = 0 := by
  have rounds := rounds_mul leftFinite rightFinite
  rw [mul_eq_zero.mpr zero] at rounds
  exact rounds.reading_eq onGrid_zero (by norm_num)

theorem finite_add_of_zero {left right : Float32} (leftFinite : left.isFinite = true)
    (rightFinite : right.isFinite = true) (zero : reading right = 0) :
    (left + right).isFinite = true ∧ reading (left + right) = reading left := by
  have rounds := rounds_add leftFinite rightFinite
  rw [zero, add_zero] at rounds
  exact rounds.reading_eq (onGrid_reading left) (abs_reading_lt left)

theorem finite_sub_of_zero {left right : Float32} (leftFinite : left.isFinite = true)
    (rightFinite : right.isFinite = true) (zero : reading right = 0) :
    (left - right).isFinite = true ∧ reading (left - right) = reading left := by
  rw [difference_eq]
  exact finite_add_of_zero leftFinite ((isFinite_neg right).trans rightFinite)
    (by rw [reading_neg, zero, neg_zero])

theorem finite_zero_sub {left right : Float32} (leftFinite : left.isFinite = true)
    (rightFinite : right.isFinite = true) (zero : reading left = 0) :
    (left - right).isFinite = true ∧ reading (left - right) = -reading right := by
  have rounds := rounds_sub leftFinite rightFinite
  rw [zero, zero_sub] at rounds
  exact rounds.reading_eq (onGrid_reading right).neg (abs_neg (reading right) ▸ abs_reading_lt right)

/-! ## Finite operands -/

theorem not_finite_encode {said : UnpackedFloat} (special : said.isFinite = false) :
    (encode said).isFinite = false := by
  cases said with
  | notANumber => decide
  | infinity sign => cases sign <;> decide
  | zero | finite => cases special

theorem finite_of_encode {said : UnpackedFloat} (finite : (encode said).isFinite = true) :
    said.isFinite = true := by
  rw [← Bool.not_eq_false]
  intro special
  rw [not_finite_encode special] at finite
  cases finite

theorem finite_of_add {left right : Float32} (finite : (left + right).isFinite = true) :
    left.isFinite = true ∧ right.isFinite = true := by
  have said : (UnpackedFloat.add .binary32 (meaning left) (meaning right)).isFinite = true :=
    finite_of_encode finite
  change (meaning left).isFinite = true ∧ (meaning right).isFinite = true
  cases first : meaning left <;> cases second : meaning right <;> rw [first, second] at said
  -- Infinities add up to an infinity or to what is not a number, as their signs are.
  case infinity.infinity sign other => cases sign <;> cases other <;> cases said
  case zero.zero | zero.finite | finite.zero | finite.finite => exact ⟨rfl, rfl⟩
  all_goals cases said

theorem finite_of_mul {left right : Float32} (finite : (left * right).isFinite = true) :
    left.isFinite = true ∧ right.isFinite = true := by
  have said : (UnpackedFloat.mul .binary32 (meaning left) (meaning right)).isFinite = true :=
    finite_of_encode finite
  change (meaning left).isFinite = true ∧ (meaning right).isFinite = true
  cases first : meaning left <;> cases second : meaning right <;> rw [first, second] at said
  case zero.zero | zero.finite | finite.zero | finite.finite => exact ⟨rfl, rfl⟩
  all_goals cases said

theorem finite_of_sub {left right : Float32} (finite : (left - right).isFinite = true) :
    left.isFinite = true ∧ right.isFinite = true := by
  rw [difference_eq] at finite
  exact (finite_of_add finite).imp_right (isFinite_neg right).symm.trans

/-! ## The order of readings -/

theorem amount_lt_of_place {first second : ℕ} {firstExponent secondExponent : ℤ}
    (left : Canonical first firstExponent) (right : Canonical second secondExponent)
    (ordered : finitePlace first firstExponent < finitePlace second secondExponent) :
    (first : ℝ) * 2 ^ firstExponent < second * 2 ^ secondExponent := by
  obtain ⟨-, leftBounded, leftLeast, -, leftNormal⟩ := left
  obtain ⟨-, rightBounded, rightLeast, -, rightNormal⟩ := right
  unfold finitePlace at ordered
  rcases Int.lt_trichotomy firstExponent secondExponent with below | rfl | above
  · have normal : (2 : ℝ) ^ 23 ≤ second := by
      rcases rightNormal with normal | bottom
      · exact_mod_cast normal
      · omega
    have few : (first : ℝ) < 2 ^ 24 := by exact_mod_cast leftBounded
    have halved : (2 : ℝ) ^ firstExponent ≤ 2 ^ (secondExponent - 1) :=
      zpow_le_zpow_right₀ one_le_two (by omega)
    calc (first : ℝ) * 2 ^ firstExponent < 2 ^ 24 * 2 ^ (secondExponent - 1) :=
          mul_lt_mul few halved (by positivity) (by positivity)
      _ = 2 ^ 23 * 2 ^ secondExponent := by
          rw [zpow_sub_one₀ two_ne_zero]
          ring
      _ ≤ second * 2 ^ secondExponent := mul_le_mul_of_nonneg_right normal (by positivity)
  · refine mul_lt_mul_of_pos_right ?_ (by positivity)
    have fewer : first < second := by omega
    exact_mod_cast fewer
  · omega

/-- A finite number and the real number that it reads lie on the same side of zero. -/
theorem reading_cases {value : Float32} (finite : value.isFinite = true) :
    (place value = 0 ∧ reading value = 0) ∨
      ∃ significand exponent, Canonical significand exponent ∧
        (place value = finitePlace significand exponent ∧
            reading value = significand * 2 ^ exponent ∨
          place value = -finitePlace significand exponent ∧
            reading value = -(significand * 2 ^ exponent)) := by
  rcases finite_cases finite with
    ⟨sign, reads, placed⟩ | ⟨sign, significand, exponent, _, reads, canonical, placed⟩
  · exact .inl ⟨placed, reading_of_zero reads⟩
  · refine .inr ⟨significand, exponent, canonical, ?_⟩
    rw [reading_of_finite reads]
    cases sign with
    | positive => exact .inl ⟨placed, one_mul _⟩
    | negative => exact .inr ⟨placed, neg_one_mul _⟩

theorem Canonical.amount_pos {significand : ℕ} {exponent : ℤ}
    (canonical : Canonical significand exponent) : (0 : ℝ) < significand * 2 ^ exponent :=
  mul_pos (Nat.cast_pos.mpr canonical.positive) (zpow_pos two_pos _)

theorem reading_lt {left right : Float32} (leftFinite : left.isFinite = true)
    (rightFinite : right.isFinite = true) (ordered : place left < place right) :
    reading left < reading right := by
  rcases reading_cases leftFinite with
    ⟨placed, reads⟩ | ⟨first, exponent, canonical, ⟨placed, reads⟩ | ⟨placed, reads⟩⟩ <;>
  rcases reading_cases rightFinite with ⟨otherPlaced, otherReads⟩ |
    ⟨second, otherExponent, other, ⟨otherPlaced, otherReads⟩ | ⟨otherPlaced, otherReads⟩⟩ <;>
  rw [placed, otherPlaced] at ordered <;> rw [reads, otherReads]
  · exact absurd ordered (lt_irrefl 0)
  · exact other.amount_pos
  · have positive := other.place_positive
    omega
  · have positive := canonical.place_positive
    omega
  · exact amount_lt_of_place canonical other ordered
  · have positive := canonical.place_positive
    have otherPositive := other.place_positive
    omega
  · exact neg_neg_of_pos canonical.amount_pos
  · exact (neg_neg_of_pos canonical.amount_pos).trans other.amount_pos
  · exact neg_lt_neg (amount_lt_of_place other canonical (neg_lt_neg_iff.mp ordered))

/-- The order of single precision is the order of the real numbers read. -/
theorem reading_le {left right : Float32} (leftFinite : left.isFinite = true)
    (rightFinite : right.isFinite = true) (ordered : place left ≤ place right) :
    reading left ≤ reading right := by
  rcases ordered.lt_or_eq with below | same
  · exact (reading_lt leftFinite rightFinite below).le
  · rcases reading_cases leftFinite with ⟨zero, reads⟩ | ⟨_, _, canonical, apart⟩
    · -- Both numbers are zeros, though maybe not the same one.
      rcases reading_cases rightFinite with ⟨-, otherReads⟩ | ⟨_, _, other, otherApart⟩
      · exact (reads.trans otherReads.symm).le
      · have positive := other.place_positive
        omega
    · have positive := canonical.place_positive
      exact (congrArg reading (eq_of_place same (by omega))).le

theorem place_le_of_reading {left right : Float32} (leftFinite : left.isFinite = true)
    (rightFinite : right.isFinite = true) (ordered : reading left ≤ reading right) :
    place left ≤ place right := by
  by_contra above
  exact (reading_lt rightFinite leftFinite (not_le.mp above)).not_ge ordered

theorem le_of_numbers {left right : Float32} (leftNumber : left.isNaN = false)
    (rightNumber : right.isNaN = false) (notBelow : ¬right < left) : left ≤ right := by
  refine le_iff.mpr ⟨leftNumber, rightNumber, ?_⟩
  by_contra below
  exact notBelow (lt_iff.mpr ⟨rightNumber, leftNumber, not_le.mp below⟩)

theorem reading_ne_zero {value : Float32} {sign : Sign} {significand : ℕ} {exponent : ℤ}
    {positive : 0 < significand}
    (reads : meaning value = .finite sign significand exponent positive) : reading value ≠ 0 := by
  have size : (0 : ℝ) < significand * 2 ^ exponent :=
    mul_pos (Nat.cast_pos.mpr positive) (zpow_pos two_pos _)
  rw [reading_of_finite reads, ← abs_pos, abs_factor_mul, abs_of_pos size]
  exact size

theorem beq_zero_iff {value : Float32} (finite : value.isFinite = true) :
    (value == 0) = true ↔ reading value = 0 := by
  rw [beq_iff, place_zero]
  rcases finite_cases finite with
    ⟨sign, reads, placed⟩ | ⟨sign, significand, exponent, positive, reads, canonical, placed⟩
  · exact iff_of_true ⟨(isFinite_iff_place.mp finite).1, by decide, placed⟩ (reading_of_zero reads)
  · have apart := canonical.place_positive
    refine iff_of_false ?_ (reading_ne_zero reads)
    rintro ⟨-, -, zero⟩
    rw [placed] at zero
    cases sign <;> simp only [Sign.apply] at zero <;> omega

theorem place_nonneg {value : Float32} (finite : value.isFinite = true)
    (nonneg : 0 ≤ reading value) : 0 ≤ place value := by
  rw [← reading_zero] at nonneg
  exact place_zero ▸ place_le_of_reading (by decide) finite nonneg

theorem reading_nonneg {value : Float32} (finite : value.isFinite = true)
    (nonneg : 0 ≤ place value) : 0 ≤ reading value :=
  reading_zero ▸ reading_le (by decide) finite (place_zero.symm ▸ nonneg)

theorem reading_pos {value : Float32} (valid : Scalar.isFinite value = true ∧ ¬value ≤ 0) :
    0 < reading value := by
  have finite : value.isFinite = true := valid.1
  have placed := (not_le_zero_iff (isFinite_iff_place.mp finite).1).mp valid.2
  exact reading_zero ▸ reading_lt (by decide) finite (place_zero ▸ placed)

/-! ## The unit interval -/

/-- A finite number between zero and one. -/
structure InUnit (value : Float32) : Prop where
  finite : value.isFinite = true
  least : 0 ≤ reading value
  most : reading value ≤ 1

theorem onGrid_one : OnGrid 1 := by
  have grid : OnGrid ((2 : ℝ) ^ (0 : ℤ)) := onGrid_two_zpow (by norm_num)
  simpa using grid

theorem Near.inUnit {exact : ℝ} {value : Float32} (near : Near exact value) (least : 0 ≤ exact)
    (most : exact ≤ 1) : InUnit value :=
  ⟨near.finite, near.least 0 onGrid_zero least, near.most 1 onGrid_one most⟩

theorem inUnit_of_place {value : Float32} (number : value.isNaN = false)
    (least : 0 ≤ place value) (most : place value ≤ place 1) : InUnit value := by
  have finite : value.isFinite = true := by
    rw [place_one] at most
    rw [isFinite_iff_place]
    unfold endPlace
    exact ⟨number, by omega, by omega⟩
  refine ⟨finite, ?_, ?_⟩
  · exact reading_zero ▸ reading_le (by decide) finite (place_zero ▸ least)
  · exact reading_one ▸ reading_le finite (by decide) most

theorem InUnit.one_sub {value : Float32} (unit : InUnit value) : InUnit (1 - value) := by
  have rounds := rounds_sub (by decide : (1 : Float32).isFinite = true) unit.finite
  rw [reading_one] at rounds
  have least : 0 ≤ 1 - reading value := sub_nonneg.mpr unit.most
  have most : 1 - reading value ≤ 1 := sub_le_self 1 unit.least
  exact (rounds.near onGrid_one (abs_le.mpr ⟨by linarith, most⟩) (by norm_num)).inUnit least most

/-- A number of the unit interval does not carry a finite number farther from zero. -/
theorem InUnit.near_mul {value other : Float32} (unit : InUnit value)
    (finite : other.isFinite = true) : Near (reading value * reading other) (value * other) := by
  refine (rounds_mul unit.finite finite).near (onGrid_reading other).abs ?_ (abs_reading_lt other)
  rw [abs_mul, abs_of_nonneg unit.least]
  exact mul_le_of_le_one_left (abs_nonneg _) unit.most

theorem InUnit.mul {value other : Float32} (unit : InUnit value) (otherUnit : InUnit other) :
    InUnit (value * other) :=
  (unit.near_mul otherUnit.finite).inUnit (mul_nonneg unit.least otherUnit.least)
    (mul_le_one₀ unit.most otherUnit.least otherUnit.most)

end Grove.Single
