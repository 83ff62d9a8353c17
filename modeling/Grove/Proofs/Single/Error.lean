import Mathlib.Data.Int.Log
import Grove.Proofs.Exact.Scalar
import Grove.Proofs.Single.Bounds

/-!
# Errors of operations

Between two neighbours of the grid there is little room, so a rounded result is close to the exact
one: up to a part in `2 ^ 23`, or up to the least positive number. From there on, how far a result
is from the one of exact arithmetic can be told operation by operation, relative to a power of two
that bounds the exact result.
-/

set_option autoImplicit false

namespace Grove.Single

open Float.Model (UnpackedFloat)
open Float.Model.UnpackedFloat

/-! ## One rounding -/

theorem OnGrid.exists_between (exact : ℝ) :
    ∃ low high, OnGrid low ∧ OnGrid high ∧ low ≤ exact ∧ exact ≤ high ∧
      high - low ≤ 2 ^ (-23 : ℤ) * |exact| + 2 ^ (-149 : ℤ) := by
  rcases eq_or_ne exact 0 with rfl | nonzero
  · exact ⟨0, 0, onGrid_zero, onGrid_zero, le_rfl, le_rfl, by rw [sub_self]; positivity⟩
  obtain ⟨exponent, isExponent⟩ : ∃ exponent, exponent = max (Int.log 2 |exact| - 23) (-149) :=
    ⟨_, rfl⟩
  have unit : (0 : ℝ) < 2 ^ exponent := zpow_pos two_pos exponent
  have fine : (2 : ℝ) ^ exponent ≤ 2 ^ (-23 : ℤ) * |exact| + 2 ^ (-149 : ℤ) := by
    have least : (0 : ℝ) ≤ 2 ^ (-149 : ℤ) := (zpow_pos two_pos _).le
    rcases max_cases (Int.log 2 |exact| - 23) (-149) with ⟨same, -⟩ | ⟨same, -⟩
    · have below := Int.zpow_log_le_self (b := 2) one_lt_two (abs_pos.mpr nonzero)
      rw [Nat.cast_two] at below
      rw [isExponent, same, sub_eq_neg_add, zpow_add₀ two_ne_zero]
      exact (mul_le_mul_of_nonneg_left below (by positivity)).trans (by linarith)
    · rw [isExponent, same]
      exact le_add_of_nonneg_left (by positivity)
  have few : |exact| / 2 ^ exponent < 2 ^ 24 := by
    have above := Int.lt_zpow_succ_log_self (b := 2) one_lt_two |exact|
    rw [Nat.cast_two] at above
    rw [div_lt_iff₀ unit]
    calc |exact| < 2 ^ (Int.log 2 |exact| + 1) := above
      _ ≤ 2 ^ (24 + exponent) := zpow_le_zpow_right₀ one_le_two (by omega)
      _ = 2 ^ 24 * 2 ^ exponent := by
          rw [zpow_add₀ two_ne_zero]
          norm_num
  rw [← abs_of_pos unit, ← abs_div, abs_lt] at few
  obtain ⟨digits, isFloor⟩ : ∃ digits, digits = ⌊exact / 2 ^ exponent⌋ := ⟨_, rfl⟩
  have floor : (digits : ℝ) ≤ exact / 2 ^ exponent := isFloor ▸ Int.floor_le _
  have ceiling : exact / 2 ^ exponent < digits + 1 := isFloor ▸ Int.lt_floor_add_one _
  have most : digits < 2 ^ 24 := by exact_mod_cast floor.trans_lt few.2
  have least : -2 ^ 24 < digits + 1 := by exact_mod_cast few.1.trans ceiling
  refine ⟨digits * 2 ^ exponent, (digits + 1 : ℤ) * 2 ^ exponent,
    ⟨digits, exponent, by rw [abs_le]; omega, by omega, rfl⟩,
    ⟨digits + 1, exponent, by rw [abs_le]; omega, by omega, rfl⟩, ?_, ?_, ?_⟩
  · exact (le_div_iff₀ unit).mp floor
  · push_cast
    exact ((div_lt_iff₀ unit).mp ceiling).le
  · push_cast
    linarith

theorem Near.error {exact : ℝ} {value : Float32} (near : Near exact value) :
    |reading value - exact| ≤ 2 ^ (-23 : ℤ) * |exact| + 2 ^ (-149 : ℤ) := by
  obtain ⟨low, high, lowGrid, highGrid, below, above, apart⟩ := OnGrid.exists_between exact
  have least := near.least low lowGrid below
  have most := near.most high highGrid above
  rw [abs_le]
  constructor <;> linarith

/-! ## Bounded results -/

/-- A finite number bounded by a power of two. -/
structure Within (exponent : ℤ) (value : Float32) : Prop where
  finite : value.isFinite = true
  most : |reading value| ≤ 2 ^ exponent

namespace Within

variable {exponent other : ℤ} {left right value : Float32}

theorem mono (within : Within exponent value) (wider : exponent ≤ other) : Within other value :=
  ⟨within.finite, within.most.trans (zpow_le_zpow_right₀ one_le_two wider)⟩

theorem of_rounds {exact : ℝ} {said : UnpackedFloat} (rounds : Rounds exact said)
    (below : |exact| ≤ 2 ^ exponent) (least : -149 ≤ exponent) (most : exponent < 128) :
    Within exponent (encode said) :=
  have near := rounds.near_two_zpow below least most
  ⟨near.finite, near.abs_reading_le (onGrid_two_zpow least) below⟩

theorem of_reading_eq_zero (finite : value.isFinite = true) (zero : reading value = 0) :
    Within exponent value :=
  ⟨finite, by rw [zero, abs_zero]; positivity⟩

theorem neg (within : Within exponent value) : Within exponent (-value) := by
  refine ⟨(isFinite_neg value).trans within.finite, ?_⟩
  rw [reading_neg, abs_neg]
  exact within.most

theorem mul (first : Within exponent left) (second : Within other right)
    (least : -149 ≤ exponent + other) (most : exponent + other < 128) :
    Within (exponent + other) (left * right) := by
  refine of_rounds (rounds_mul first.finite second.finite) ?_ least most
  rw [abs_mul, zpow_add₀ two_ne_zero]
  exact mul_le_mul first.most second.most (abs_nonneg _) (by positivity)

theorem add (first : Within exponent left) (second : Within exponent right)
    (least : -150 ≤ exponent) (most : exponent < 127) : Within (exponent + 1) (left + right) := by
  refine of_rounds (rounds_add first.finite second.finite) ?_ (by omega) (by omega)
  rw [zpow_add_one₀ two_ne_zero, mul_two]
  exact (abs_add_le _ _).trans (add_le_add first.most second.most)

theorem sub (first : Within exponent left) (second : Within exponent right)
    (least : -150 ≤ exponent) (most : exponent < 127) : Within (exponent + 1) (left - right) := by
  rw [difference_eq]
  exact first.add second.neg least most

theorem minor {p q r s : Float32} (ofP : Within exponent p) (ofQ : Within other q)
    (ofR : Within other r) (ofS : Within exponent s) (least : -149 ≤ exponent + other)
    (most : exponent + other < 127) : Within (exponent + other + 1) (p * q - r * s) :=
  (ofP.mul ofQ least (by omega)).sub ((ofR.mul ofS (by omega) (by omega)).mono (by omega))
    (by omega) most

end Within

/-! ## Close results -/

/-- A finite number close to an exact one. Both the exact one and the error are measured by a power
of two. -/
structure Close (exponent : ℤ) (exact error : ℝ) (value : Float32) : Prop where
  finite : value.isFinite = true
  bounded : |exact| ≤ 2 ^ exponent
  error : |reading value - exact| ≤ error * 2 ^ exponent

namespace Close

variable {exponent other : ℤ} {exact leftExact rightExact error first second : ℝ}
  {left right value : Float32}

theorem of_reading (finite : value.isFinite = true) (bounded : |reading value| ≤ 2 ^ exponent)
    (nonneg : 0 ≤ error) : Close exponent (reading value) error value :=
  ⟨finite, bounded, by rw [sub_self, abs_zero]; positivity⟩

theorem congr (close : Close exponent exact error left) (finite : right.isFinite = true)
    (same : reading right = reading left) : Close exponent exact error right :=
  ⟨finite, close.bounded, same ▸ close.error⟩

theorem mono {loss : ℝ} (close : Close exponent exact error value) (more : error ≤ loss) :
    Close exponent exact loss value :=
  ⟨close.finite, close.bounded,
    close.error.trans (mul_le_mul_of_nonneg_right more (by positivity))⟩

theorem raise (close : Close exponent exact error value) (nonneg : 0 ≤ error)
    (wider : exponent ≤ other) : Close other exact error value := by
  have powers : (2 : ℝ) ^ exponent ≤ 2 ^ other := zpow_le_zpow_right₀ one_le_two wider
  exact ⟨close.finite, close.bounded.trans powers,
    close.error.trans (mul_le_mul_of_nonneg_left powers nonneg)⟩

/-- A smaller power of two may do as well, with a greater error. -/
theorem lower {loss : ℝ} (close : Close exponent exact error value)
    (bounded : |exact| ≤ 2 ^ other) (more : error * 2 ^ (exponent - other) ≤ loss) :
    Close other exact loss value := by
  refine ⟨close.finite, bounded, close.error.trans ?_⟩
  have same : (2 : ℝ) ^ exponent = 2 ^ (exponent - other) * 2 ^ other := by
    rw [← zpow_add₀ two_ne_zero, sub_add_cancel]
  rw [same, ← mul_assoc]
  exact mul_le_mul_of_nonneg_right more (by positivity)

theorem within (close : Close exponent exact error value) (small : error ≤ 1) :
    Within (exponent + 1) value := by
  refine ⟨close.finite, ?_⟩
  have apart := close.error.trans (mul_le_mul_of_nonneg_right small (by positivity))
  have bounded := close.bounded
  rw [zpow_add_one₀ two_ne_zero]
  calc |reading value| = |reading value - exact + exact| := by rw [sub_add_cancel]
    _ ≤ |reading value - exact| + |exact| := abs_add_le _ _
    _ ≤ 2 ^ exponent * 2 := by linarith

/-- Rounding a result that is close to an exact one loses a part in `2 ^ 21`. -/
theorem of_rounds {result loss : ℝ} {said : UnpackedFloat} (rounds : Rounds result said)
    (bounded : |exact| ≤ 2 ^ exponent) (apart : |result - exact| ≤ error * 2 ^ exponent)
    (small : error ≤ 1) (least : -127 ≤ exponent) (most : exponent < 127)
    (lost : error + 2 ^ (-21 : ℤ) ≤ loss) : Close exponent exact loss (encode said) := by
  have unit : (0 : ℝ) < 2 ^ exponent := zpow_pos two_pos exponent
  have double : |result| ≤ 2 ^ (exponent + 1) := by
    have short := apart.trans (mul_le_mul_of_nonneg_right small unit.le)
    rw [zpow_add_one₀ two_ne_zero]
    calc |result| = |result - exact + exact| := by rw [sub_add_cancel]
      _ ≤ |result - exact| + |exact| := abs_add_le _ _
      _ ≤ 2 ^ exponent * 2 := by linarith
  have near := rounds.near_two_zpow double (by omega) (by omega)
  have finest : (2 : ℝ) ^ (-149 : ℤ) ≤ 2 ^ (-22 : ℤ) * 2 ^ exponent := by
    rw [← zpow_add₀ two_ne_zero]
    exact zpow_le_zpow_right₀ one_le_two (by omega)
  have rounding : |reading (encode said) - result| ≤ 2 ^ (-21 : ℤ) * 2 ^ exponent := by
    refine near.error.trans ?_
    rw [zpow_add_one₀ two_ne_zero] at double
    norm_num at finest double ⊢
    linarith
  refine ⟨near.finite, bounded, ?_⟩
  calc |reading (encode said) - exact|
      = |(reading (encode said) - result) + (result - exact)| := by rw [sub_add_sub_cancel]
    _ ≤ |reading (encode said) - result| + |result - exact| := abs_add_le _ _
    _ ≤ (error + 2 ^ (-21 : ℤ)) * 2 ^ exponent := by linarith
    _ ≤ loss * 2 ^ exponent := mul_le_mul_of_nonneg_right lost unit.le

theorem neg (close : Close exponent exact error value) : Close exponent (-exact) error (-value) := by
  refine ⟨(isFinite_neg value).trans close.finite, (abs_neg exact).trans_le close.bounded, ?_⟩
  rw [reading_neg, ← neg_sub', abs_neg]
  exact close.error

theorem mul (ofLeft : Close exponent leftExact first left)
    (ofRight : Close other rightExact second right) (loss : ℝ) (nonneg : 0 ≤ first)
    (small : first + second + first * second ≤ 1) (least : -127 ≤ exponent + other)
    (most : exponent + other < 127)
    (lost : first + second + first * second + 2 ^ (-21 : ℤ) ≤ loss) :
    Close (exponent + other) (leftExact * rightExact) loss (left * right) := by
  refine of_rounds (rounds_mul ofLeft.finite ofRight.finite) ?_ ?_ small least most lost
  · rw [abs_mul, zpow_add₀ two_ne_zero]
    exact mul_le_mul ofLeft.bounded ofRight.bounded (abs_nonneg _) (by positivity)
  · have split : reading left * reading right - leftExact * rightExact =
        (reading left - leftExact) * rightExact + leftExact * (reading right - rightExact) +
          (reading left - leftExact) * (reading right - rightExact) := by ring
    have one := mul_le_mul ofLeft.error ofRight.bounded (abs_nonneg _)
      (mul_nonneg nonneg (by positivity))
    have two := mul_le_mul ofLeft.bounded ofRight.error (abs_nonneg _) (by positivity)
    have both := mul_le_mul ofLeft.error ofRight.error (abs_nonneg _)
      (mul_nonneg nonneg (by positivity))
    rw [← abs_mul] at one two both
    rw [split, zpow_add₀ two_ne_zero]
    refine (abs_add_le _ _).trans ((add_le_add (abs_add_le _ _) le_rfl).trans ?_)
    linarith

/-- A sum is bounded by the next power of two, of which the errors are half the part. -/
theorem add (ofLeft : Close exponent leftExact first left)
    (ofRight : Close exponent rightExact second right) (loss : ℝ) (small : first + second ≤ 2)
    (least : -128 ≤ exponent) (most : exponent < 126)
    (lost : (first + second) / 2 + 2 ^ (-21 : ℤ) ≤ loss) :
    Close (exponent + 1) (leftExact + rightExact) loss (left + right) := by
  have double := zpow_add_one₀ (two_ne_zero (α := ℝ)) exponent
  have leftBounded := ofLeft.bounded
  have rightBounded := ofRight.bounded
  have leftError := ofLeft.error
  have rightError := ofRight.error
  refine of_rounds (rounds_add ofLeft.finite ofRight.finite) ?_ ?_
    (by linarith : (first + second) / 2 ≤ 1) (by omega) (by omega) lost
  · rw [double]
    exact (abs_add_le _ _).trans (by linarith)
  · rw [double, add_sub_add_comm]
    exact (abs_add_le _ _).trans (by linarith)

theorem sub (ofLeft : Close exponent leftExact first left)
    (ofRight : Close exponent rightExact second right) (loss : ℝ) (small : first + second ≤ 2)
    (least : -128 ≤ exponent) (most : exponent < 126)
    (lost : (first + second) / 2 + 2 ^ (-21 : ℤ) ≤ loss) :
    Close (exponent + 1) (leftExact - rightExact) loss (left - right) := by
  rw [difference_eq, sub_eq_add_neg]
  exact ofLeft.add ofRight.neg loss small least most lost

end Close

end Grove.Single
