import Grove.Proofs.Single.Reading

/-!
# Operations on readings

The operations of single precision round the results of the operations on real numbers, as long as
these stay below the power of two at which the infinities begin.
-/

set_option autoImplicit false

namespace Grove.Single

open Float.Model (Format totalExponent UnpackedFloat)
open Float.Model.UnpackedFloat

/-- The real number that a finite number reads. -/
noncomputable def reading (value : Float32) : ℝ :=
  amount (meaning value)

theorem finite_cases {value : Float32} (finite : value.isFinite = true) :
    (∃ sign, meaning value = .zero sign ∧ place value = 0) ∨
    ∃ sign significand exponent positive,
      meaning value = .finite sign significand exponent positive ∧
        Canonical significand exponent ∧
        place value = sign.apply (finitePlace significand exponent) := by
  rcases meaning_cases (isFinite_iff_place.mp finite).1 with ⟨sign, reads, -⟩ | zero | other
  · have said : (meaning value).isFinite = true := finite
    rw [reads] at said
    cases said
  · exact .inl zero
  · exact .inr other

theorem reading_of_zero {value : Float32} {sign : Sign} (reads : meaning value = .zero sign) :
    reading value = 0 := by
  rw [reading, reads]
  rfl

theorem reading_of_finite {value : Float32} {sign : Sign} {significand : ℕ} {exponent : ℤ}
    {positive : 0 < significand}
    (reads : meaning value = .finite sign significand exponent positive) :
    reading value = factor sign * (significand * 2 ^ exponent) := by
  rw [reading, reads]
  rfl

theorem factor_mul (first second : Sign) :
    factor (first * second) = factor first * factor second :=
  match first, second with
  | .positive, .positive => (one_mul 1).symm
  | .positive, .negative => (one_mul (-1)).symm
  | .negative, .positive => (mul_one (-1)).symm
  | .negative, .negative => (neg_mul_neg 1 1).trans (one_mul 1) |>.symm

theorem factor_div (first second : Sign) :
    factor (first / second) = factor first * factor second :=
  factor_mul first second

theorem factor_neg (sign : Sign) : factor (-sign) = -factor sign := by
  cases sign with
  | positive => rfl
  | negative => exact (neg_neg (1 : ℝ)).symm

theorem abs_factor_mul (sign : Sign) (value : ℝ) : |factor sign * value| = |value| := by
  cases sign <;> simp [factor]

/-! ## Encoding what was rounded -/

theorem le_amount_of_great {significand : ℕ} {exponent : ℤ}
    (normal : 2 ^ 23 ≤ significand ∨ exponent = -149) (great : 104 < exponent) :
    (2 : ℝ) ^ 128 ≤ significand * 2 ^ exponent := by
  have many : (2 : ℝ) ^ 23 ≤ significand := by
    rcases normal with many | bottom
    · exact_mod_cast many
    · omega
  have unit : (2 : ℝ) ^ (105 : ℤ) ≤ 2 ^ exponent := zpow_le_zpow_right₀ one_le_two (by omega)
  calc (2 : ℝ) ^ 128 = 2 ^ 23 * 2 ^ (105 : ℤ) := by norm_num
    _ ≤ (significand : ℝ) * 2 ^ exponent := mul_le_mul many unit (by positivity) (by positivity)

theorem lt_amount_of_canonical {significand : ℕ} {exponent : ℤ}
    (canonical : Canonical significand exponent) : (significand : ℝ) * 2 ^ exponent < 2 ^ 128 := by
  have few : (significand : ℝ) < 2 ^ 24 := by exact_mod_cast canonical.bounded
  have unit : (2 : ℝ) ^ exponent ≤ 2 ^ (104 : ℤ) :=
    zpow_le_zpow_right₀ one_le_two canonical.greatest
  calc (significand : ℝ) * 2 ^ exponent < 2 ^ 24 * 2 ^ exponent :=
        mul_lt_mul_of_pos_right few (zpow_pos two_pos exponent)
    _ ≤ 2 ^ 24 * 2 ^ (104 : ℤ) := mul_le_mul_of_nonneg_left unit (by positivity)
    _ = 2 ^ 128 := by norm_num

theorem reading_of_not_finite {value : Float32} (special : value.isFinite = false) :
    reading value = 0 := by
  have said : (meaning value).isFinite = false := special
  unfold reading
  cases reads : meaning value with
  | finite =>
      rw [reads] at said
      cases said
  | zero | infinity | notANumber => rfl

theorem abs_reading_lt (value : Float32) : |reading value| < 2 ^ 128 := by
  cases finite : value.isFinite with
  | true =>
      rcases finite_cases finite with ⟨sign, reads, -⟩ | ⟨sign, _, _, _, reads, canonical, -⟩
      · rw [reading_of_zero reads]
        norm_num
      · rw [reading_of_finite reads, abs_factor_mul, abs_of_nonneg (by positivity)]
        exact lt_amount_of_canonical canonical
  | false =>
      rw [reading_of_not_finite finite]
      norm_num

theorem isFinite_encode_great {sign : Sign} {significand : ℕ} {exponent : ℤ}
    (positive : 0 < significand) (normal : 2 ^ 23 ≤ significand ∨ exponent = -149)
    (bounded : significand < 2 ^ 24) (great : 104 < exponent) :
    (encode (.finite sign significand exponent positive)).isFinite = false := by
  have packed : pack Format.binary32 (.finite sign significand exponent positive) =
      pack Format.binary32 (.infinity sign) := by
    have digits : significand.log2 = 23 := by
      rcases normal with many | bottom
      · exact (Nat.log2_eq_iff (Nat.ne_of_gt positive)).mpr ⟨many, bounded⟩
      · omega
    unfold pack
    dsimp only
    rw [if_pos]
    simp [Format.exponentBias]
    omega
  have infinite : encode (.finite sign significand exponent positive) =
      encode (.infinity sign) :=
    Float32.toBits_inj.mp (UInt32.toNat_inj.mp (congrArg BitVec.toNat packed))
  rw [infinite]
  cases sign <;> decide

theorem meaning_encode_of_fits {said : UnpackedFloat} (fits : Fits said)
    (finite : (encode said).isFinite = true) : meaning (encode said) = said := by
  cases fits with
  | zero sign => cases sign <;> rfl
  | @finite sign significand exponent positive bounded least normal =>
      rcases Int.lt_or_le 104 exponent with great | small
      · rw [isFinite_encode_great positive normal bounded great] at finite
        cases finite
      · exact meaning_encode ⟨positive, bounded, least, small, normal⟩ sign

theorem isFinite_encode_of_fits {said : UnpackedFloat} (fits : Fits said)
    (small : |amount said| < 2 ^ 128) : (encode said).isFinite = true := by
  cases fits with
  | zero sign => exact isFinite_encode_zero sign
  | @finite sign significand exponent positive bounded least normal =>
      refine isFinite_encode_finite positive (Int.not_lt.mp fun great => ?_)
      rw [amount, abs_factor_mul, abs_of_nonneg (by positivity)] at small
      exact absurd (le_amount_of_great normal great) (not_le.mpr small)

/-- A finite number, and nothing of the grid strictly between it and an exact value. -/
structure Near (exact : ℝ) (value : Float32) : Prop where
  finite : value.isFinite = true
  least : ∀ bound, OnGrid bound → bound ≤ exact → bound ≤ reading value
  most : ∀ bound, OnGrid bound → exact ≤ bound → reading value ≤ bound

theorem Rounds.near_of_finite {exact : ℝ} {said : UnpackedFloat} (rounds : Rounds exact said)
    (finite : (encode said).isFinite = true) : Near exact (encode said) := by
  have reads := meaning_encode_of_fits rounds.fits finite
  refine ⟨finite, ?_, ?_⟩
  · rw [reading, reads]
    exact rounds.least
  · rw [reading, reads]
    exact rounds.most

theorem Rounds.near {exact : ℝ} {said : UnpackedFloat} (rounds : Rounds exact said) {bound : ℝ}
    (grid : OnGrid bound) (below : |exact| ≤ bound) (small : bound < 2 ^ 128) :
    Near exact (encode said) := by
  obtain ⟨lower, upper⟩ := abs_le.mp below
  refine rounds.near_of_finite (isFinite_encode_of_fits rounds.fits (lt_of_le_of_lt ?_ small))
  exact abs_le.mpr ⟨rounds.least _ grid.neg lower, rounds.most _ grid upper⟩

namespace Near

variable {exact bound : ℝ} {value : Float32}

theorem abs_reading_le (near : Near exact value) (grid : OnGrid bound) (below : |exact| ≤ bound) :
    |reading value| ≤ bound := by
  obtain ⟨lower, upper⟩ := abs_le.mp below
  exact abs_le.mpr ⟨near.least _ grid.neg lower, near.most _ grid upper⟩

theorem le_abs_reading (near : Near exact value) (grid : OnGrid bound) (above : bound ≤ |exact|) :
    bound ≤ |reading value| := by
  rcases le_total 0 exact with nonneg | nonpos
  · rw [abs_of_nonneg nonneg] at above
    exact (near.least _ grid above).trans (le_abs_self _)
  · rw [abs_of_nonpos nonpos] at above
    have lower := near.most _ grid.neg (le_neg_of_le_neg above)
    exact (le_neg_of_le_neg lower).trans (neg_le_abs _)

theorem eq_of_onGrid (near : Near exact value) (grid : OnGrid exact) : reading value = exact :=
  le_antisymm (near.most _ grid le_rfl) (near.least _ grid le_rfl)

end Near

/-! ## Products and sums -/

theorem rounds_of_canonical {significand : ℕ} {exponent : ℤ}
    (canonical : Canonical significand exponent) (sign : Sign) :
    Rounds (factor sign * (significand * 2 ^ exponent))
      (.finite sign significand exponent canonical.positive) :=
  ⟨.finite sign canonical.positive canonical.bounded canonical.least canonical.normal,
    fun _ _ below => below, fun _ _ above => above⟩

theorem fine_mul {first second : ℕ} {firstExponent secondExponent : ℤ}
    (left : Canonical first firstExponent) (right : Canonical second secondExponent) :
    firstExponent + secondExponent ≤ Format.binary32.targetExponent
      (totalExponent (first * second) (firstExponent + secondExponent)) := by
  have product := Nat.mul_pos left.positive right.positive
  rw [targetExponent_eq]
  unfold totalExponent
  have long : 2 ^ 23 ≤ first * second → 23 ≤ (first * second).log2 :=
    (Nat.le_log2 (Nat.ne_of_gt product)).mpr
  rcases left.normal with normal | bottom
  · have digits := long (normal.trans (Nat.le_mul_of_pos_right first right.positive))
    omega
  · rcases right.normal with normal | otherBottom
    · have digits := long (normal.trans (Nat.le_mul_of_pos_left second left.positive))
      omega
    · omega

theorem rounds_mul {left right : Float32} (leftFinite : left.isFinite = true)
    (rightFinite : right.isFinite = true) :
    Rounds (reading left * reading right)
      (UnpackedFloat.mul .binary32 (meaning left) (meaning right)) := by
  rcases finite_cases leftFinite with
    ⟨sign, reads, -⟩ | ⟨sign, first, exponent, _, reads, canonical, -⟩
  · rw [reading_of_zero reads, zero_mul, reads]
    rcases finite_cases rightFinite with ⟨other, otherReads, -⟩ | ⟨other, _, _, _, otherReads, -⟩
    · rw [otherReads]
      exact rounds_zero (sign * other)
    · rw [otherReads]
      exact rounds_zero (sign * other)
  · rcases finite_cases rightFinite with
      ⟨other, otherReads, -⟩ | ⟨other, second, otherExponent, _, otherReads, otherCanonical, -⟩
    · rw [reading_of_zero otherReads, mul_zero, reads, otherReads]
      exact rounds_zero (sign * other)
    · have rounds := rounds_roundWithAccuracy (.exact (first * second) (exponent + otherExponent))
        (fine_mul canonical otherCanonical) (sign * other)
      have same : reading left * reading right = factor (sign * other) *
          (((first * second : ℕ) : ℝ) * 2 ^ (exponent + otherExponent)) := by
        rw [reading_of_finite reads, reading_of_finite otherReads, factor_mul,
          zpow_add₀ two_ne_zero]
        push_cast
        ring
      rw [same, reads, otherReads]
      exact rounds

theorem apply_shift (sign : Sign) (significand : ℕ) {exponent lowest : ℤ}
    (above : lowest ≤ exponent) :
    ((sign.apply ((significand * 2 ^ (exponent - lowest).toNat : ℕ) : ℤ) : ℤ) : ℝ) * 2 ^ lowest =
      factor sign * (significand * 2 ^ exponent) := by
  obtain ⟨shift, rfl⟩ : ∃ shift : ℕ, exponent = lowest + shift :=
    ⟨(exponent - lowest).toNat, by omega⟩
  have amount : (lowest + (shift : ℤ) - lowest).toNat = shift := by omega
  rw [amount, zpow_add₀ two_ne_zero, zpow_natCast]
  cases sign with
  | positive =>
      simp only [Sign.apply, factor]
      push_cast
      ring
  | negative =>
      simp only [Sign.apply, factor]
      push_cast
      ring

theorem rounds_add {left right : Float32} (leftFinite : left.isFinite = true)
    (rightFinite : right.isFinite = true) :
    Rounds (reading left + reading right)
      (UnpackedFloat.add .binary32 (meaning left) (meaning right)) := by
  rcases finite_cases leftFinite with
    ⟨sign, reads, -⟩ | ⟨sign, first, exponent, _, reads, canonical, -⟩
  · rw [reading_of_zero reads, zero_add, reads]
    rcases finite_cases rightFinite with
      ⟨other, otherReads, -⟩ | ⟨other, _, _, _, otherReads, otherCanonical, -⟩
    · rw [reading_of_zero otherReads, otherReads]
      cases sign <;> cases other <;> exact rounds_zero _
    · rw [reading_of_finite otherReads, otherReads]
      exact rounds_of_canonical otherCanonical other
  · rcases finite_cases rightFinite with
      ⟨other, otherReads, -⟩ | ⟨other, second, otherExponent, _, otherReads, otherCanonical, -⟩
    · rw [reading_of_zero otherReads, add_zero, reading_of_finite reads, reads, otherReads]
      exact rounds_of_canonical canonical sign
    · rw [reading_of_finite reads, reading_of_finite otherReads, reads, otherReads,
        ← apply_shift sign first (min_le_left exponent otherExponent),
        ← apply_shift other second (min_le_right exponent otherExponent), ← add_mul,
        ← Int.cast_add]
      unfold UnpackedFloat.add decreaseExponent
      simp only [Nat.shiftLeft_eq]
      exact rounds_normalize _ _

/-! ## Differences -/

theorem sub_eq_add_opposite (first second : UnpackedFloat) :
    UnpackedFloat.sub .binary32 first second = UnpackedFloat.add .binary32 first second.neg := by
  have opposite : ∀ (sign : Sign) (amount : ℤ), (-sign).apply amount = -sign.apply amount :=
    fun sign amount => by cases sign with
      | positive => rfl
      | negative => exact (Int.neg_neg amount).symm
  cases first with
  | finite sign significand exponent =>
      cases second with
      | finite other =>
          simp only [UnpackedFloat.sub, UnpackedFloat.add, UnpackedFloat.neg, opposite]
          rfl
      | zero other | infinity other | notANumber => rfl
  | zero sign =>
      cases second with
      | zero other => cases sign <;> cases other <;> rfl
      | finite | infinity | notANumber => rfl
  | infinity sign =>
      cases second with
      | infinity other => cases sign <;> cases other <;> rfl
      | finite | zero | notANumber => rfl
  | notANumber => rfl

theorem meaning_neg (value : Float32) : meaning (-value) = (meaning value).neg := by
  change meaning (encode (meaning value).neg) = _
  cases number : value.isNaN with
  | true =>
      have reads : meaning value = .notANumber := by
        rw [isNaN_eq] at number
        cases reads : meaning value <;> rw [reads] at number <;> first | rfl | cases number
      rw [reads]
      rfl
  | false =>
      rcases meaning_cases number with
        ⟨sign, reads, -⟩ | ⟨sign, reads, -⟩ | ⟨sign, _, _, _, reads, canonical, -⟩
      · rw [reads]
        cases sign <;> rfl
      · rw [reads]
        cases sign <;> rfl
      · rw [reads]
        exact meaning_encode canonical (-sign)

/-- A difference is the sum with the opposite number, bit for bit. -/
theorem difference_eq (left right : Float32) : left - right = left + -right := by
  change encode (UnpackedFloat.sub .binary32 (meaning left) (meaning right)) =
    encode (UnpackedFloat.add .binary32 (meaning left) (meaning (-right)))
  rw [sub_eq_add_opposite, meaning_neg]

theorem isFinite_neg (value : Float32) : (-value).isFinite = value.isFinite := by
  change (meaning (-value)).isFinite = (meaning value).isFinite
  rw [meaning_neg]
  cases meaning value <;> rfl

theorem reading_neg (value : Float32) : reading (-value) = -reading value := by
  unfold reading
  rw [meaning_neg]
  cases meaning value with
  | finite sign significand exponent =>
      change factor (-sign) * _ = -(factor sign * _)
      rw [factor_neg, neg_mul]
  | zero | infinity | notANumber => exact neg_zero.symm

theorem rounds_sub {left right : Float32} (leftFinite : left.isFinite = true)
    (rightFinite : right.isFinite = true) :
    Rounds (reading left - reading right)
      (UnpackedFloat.sub .binary32 (meaning left) (meaning right)) := by
  rw [sub_eq_add_opposite, ← meaning_neg, sub_eq_add_neg, ← reading_neg]
  exact rounds_add leftFinite ((isFinite_neg right).trans rightFinite)

/-! ## Quotients and square roots -/

theorem truncates_quotient {numerator denominator : ℕ} (positive : 0 < denominator)
    (exponent : ℤ) :
    Truncates (numerator * (denominator : ℝ)⁻¹ * 2 ^ exponent) (numerator / denominator) exponent
      (accuracyOfFraction (numerator % denominator) denominator) := by
  rw [← div_eq_mul_inv]
  have unit : (0 : ℝ) < 2 ^ exponent := zpow_pos two_pos exponent
  have realPositive : (0 : ℝ) < denominator := by exact_mod_cast positive
  refine ⟨mul_le_mul_of_nonneg_right Nat.cast_div_le unit.le, ?_, ?_⟩
  · refine mul_lt_mul_of_pos_right ((div_lt_iff₀ realPositive).mpr ?_) unit
    exact_mod_cast Nat.lt_mul_of_div_lt (Nat.lt_succ_self _) positive
  · intro same
    have quotient := mul_right_cancel₀ unit.ne' same
    have whole : numerator = numerator / denominator * denominator := by
      rw [div_eq_iff realPositive.ne'] at quotient
      exact_mod_cast quotient
    have nothing : numerator % denominator = 0 :=
      Nat.mod_eq_zero_of_dvd ⟨_, whole.trans (Nat.mul_comm _ _)⟩
    rw [nothing]
    rfl

/-- A quotient with more digits than the difference of the total exponents asks for is fine. -/
theorem fine_quotient {numerator denominator : ℕ} (numeratorPositive : 0 < numerator)
    (denominatorPositive : 0 < denominator) {exponent own target : ℤ} {shift : ℕ}
    (shifted : target + shift = exponent - own)
    (least : target ≤ Format.binary32.targetExponent
      (totalExponent numerator exponent - totalExponent denominator own)) :
    target ≤ Format.binary32.targetExponent
      (totalExponent (numerator * 2 ^ shift / denominator) target) := by
  have digits : numerator.log2 + shift ≤
      (numerator * 2 ^ shift / denominator).log2 + denominator.log2 + 1 := by
    rcases Nat.lt_or_ge (numerator.log2 + shift) (denominator.log2 + 1) with short | long
    · omega
    · have least : 2 ^ (numerator.log2 + shift) ≤ numerator * 2 ^ shift := by
        rw [Nat.pow_add]
        exact Nat.mul_le_mul_right _ (Nat.log2_self_le (Nat.ne_of_gt numeratorPositive))
      have quotient : 2 ^ (numerator.log2 + shift - (denominator.log2 + 1)) ≤
          numerator * 2 ^ shift / denominator := by
        rw [Nat.le_div_iff_mul_le denominatorPositive]
        refine Nat.le_trans (Nat.mul_le_mul_left _ (Nat.le_of_lt Nat.lt_log2_self)) ?_
        rwa [← Nat.pow_add, Nat.sub_add_cancel long]
      have nonzero := Nat.ne_of_gt (Nat.lt_of_lt_of_le (Nat.two_pow_pos _) quotient)
      have most := (Nat.le_log2 nonzero).mpr quotient
      omega
  rw [targetExponent_eq] at least ⊢
  unfold totalExponent at least ⊢
  omega

theorem rounds_div {left right : Float32} (leftFinite : left.isFinite = true)
    (rightFinite : right.isFinite = true) (nonzero : reading right ≠ 0) :
    Rounds (reading left * (reading right)⁻¹)
      (UnpackedFloat.div .binary32 (meaning left) (meaning right)) := by
  rcases finite_cases rightFinite with
    ⟨other, otherReads, -⟩ | ⟨other, second, otherExponent, otherPositive, otherReads, -⟩
  · exact absurd (reading_of_zero otherReads) nonzero
  · rcases finite_cases leftFinite with
      ⟨sign, reads, -⟩ | ⟨sign, first, exponent, positive, reads, -⟩
    · rw [reading_of_zero reads, zero_mul, reads, otherReads]
      exact rounds_zero (sign / other)
    · obtain ⟨target, isTarget⟩ : ∃ target, target = min (exponent - otherExponent)
          (Format.binary32.targetExponent
            (totalExponent first exponent - totalExponent second otherExponent)) := ⟨_, rfl⟩
      obtain ⟨shift, isShift⟩ : ∃ shift, shift = (exponent - otherExponent - target).toNat :=
        ⟨_, rfl⟩
      have shifted : target + shift = exponent - otherExponent := by omega
      have rounds := rounds_roundWithAccuracy
        (@truncates_quotient (first * 2 ^ shift) second otherPositive target)
        (fine_quotient positive otherPositive shifted (by omega)) (sign / other)
      have same : reading left * (reading right)⁻¹ = factor (sign / other) *
          (((first * 2 ^ shift : ℕ) : ℝ) * (second : ℝ)⁻¹ * 2 ^ target) := by
        have lower : exponent = target + shift + otherExponent := by omega
        have realPositive : (second : ℝ) ≠ 0 := by exact_mod_cast Nat.ne_of_gt otherPositive
        have unit : (2 : ℝ) ^ otherExponent ≠ 0 := (zpow_pos two_pos _).ne'
        rw [reading_of_finite reads, reading_of_finite otherReads, factor_div, lower,
          zpow_add₀ two_ne_zero, zpow_add₀ two_ne_zero, zpow_natCast]
        push_cast
        cases sign <;> cases other <;> simp only [factor] <;> field_simp
      rw [same, reads, otherReads]
      unfold UnpackedFloat.div divCore
      simp only [Nat.shiftLeft_eq, ← isTarget, ← isShift]
      exact rounds

theorem log2_sqrt {value : ℕ} (positive : 0 < value) : (Nat.sqrt value).log2 = value.log2 / 2 := by
  have rootPositive := Nat.sqrt_pos.mpr positive
  rw [Nat.log2_eq_iff (Nat.ne_of_gt rootPositive)]
  constructor
  · rw [Nat.le_sqrt, ← Nat.pow_add]
    refine Nat.le_trans (Nat.pow_le_pow_right (by decide) ?_)
      (Nat.log2_self_le (Nat.ne_of_gt positive))
    omega
  · rw [Nat.sqrt_lt, ← Nat.pow_add]
    refine Nat.lt_of_lt_of_le Nat.lt_log2_self (Nat.pow_le_pow_right (by decide) ?_)
    omega

theorem truncates_sqrt (value : ℕ) (exponent : ℤ) :
    let root := Nat.sqrt value
    let rest := value - root * root
    Truncates (√(value : ℝ) * 2 ^ exponent) root exponent
      (if rest = 0 then .exact else .inexact (if rest ≤ root then .lt else .gt)) := by
  intro root rest
  have unit : (0 : ℝ) < 2 ^ exponent := zpow_pos two_pos exponent
  have lower : (root : ℝ) ≤ √(value : ℝ) := by
    refine Real.le_sqrt_of_sq_le ?_
    rw [sq]
    exact_mod_cast Nat.sqrt_le value
  have upper : √(value : ℝ) < root + 1 := by
    rw [Real.sqrt_lt' (by positivity), sq]
    exact_mod_cast Nat.lt_succ_sqrt value
  refine ⟨mul_le_mul_of_nonneg_right lower unit.le, mul_lt_mul_of_pos_right upper unit, ?_⟩
  intro same
  have whole := mul_right_cancel₀ unit.ne' same
  have square : value = root * root := by
    rw [Real.sqrt_eq_iff_mul_self_eq (Nat.cast_nonneg value) (Nat.cast_nonneg root)] at whole
    exact_mod_cast whole
  have nothing : rest = 0 := by omega
  exact if_pos nothing

/-- A root with more digits than half of the total exponent asks for is fine. -/
theorem fine_sqrt {significand : ℕ} (positive : 0 < significand) {exponent target : ℤ} {shift : ℕ}
    (shifted : exponent = 2 * target + shift)
    (least : target ≤ Format.binary32.targetExponent
      ((totalExponent significand exponent + 1).ediv 2)) :
    target ≤ Format.binary32.targetExponent
      (totalExponent (Nat.sqrt (significand * 2 ^ shift)) target) := by
  have digits := log2_sqrt (Nat.mul_pos positive (Nat.two_pow_pos shift))
  have total : (totalExponent significand exponent + 1).ediv 2 =
      (totalExponent significand exponent + 1) / 2 := rfl
  rw [log2_mul_two_pow positive] at digits
  rw [total] at least
  rw [targetExponent_eq] at least ⊢
  unfold totalExponent at *
  omega

theorem rounds_sqrt {value : Float32} (finite : value.isFinite = true)
    (nonneg : 0 ≤ reading value) :
    Rounds √(reading value) (UnpackedFloat.sqrt .binary32 (meaning value)) := by
  rcases finite_cases finite with
    ⟨sign, reads, -⟩ | ⟨sign, significand, exponent, positive, reads, -⟩
  · rw [reading_of_zero reads, Real.sqrt_zero, reads]
    exact rounds_zero sign
  · cases sign with
    | negative =>
        have unit : (0 : ℝ) < 2 ^ exponent := zpow_pos two_pos exponent
        have some : (0 : ℝ) < significand := by exact_mod_cast positive
        rw [reading_of_finite reads] at nonneg
        simp only [factor, neg_one_mul] at nonneg
        exact absurd nonneg (not_le.mpr (neg_neg_of_pos (mul_pos some unit)))
    | positive =>
        obtain ⟨target, isTarget⟩ : ∃ target, target = min (exponent.ediv 2)
            (Format.binary32.targetExponent ((totalExponent significand exponent + 1).ediv 2)) :=
          ⟨_, rfl⟩
        obtain ⟨shift, isShift⟩ : ∃ shift, shift = (exponent - 2 * target).toNat := ⟨_, rfl⟩
        have halved : exponent.ediv 2 = exponent / 2 := rfl
        have shifted : exponent = 2 * target + shift := by omega
        have rounds := rounds_roundWithAccuracy (truncates_sqrt (significand * 2 ^ shift) target)
          (fine_sqrt positive shifted (isTarget ▸ min_le_right _ _)) .positive
        have same : √(reading value) =
            factor .positive * (√((significand * 2 ^ shift : ℕ) : ℝ) * 2 ^ target) := by
          have square : reading value =
              ((significand * 2 ^ shift : ℕ) : ℝ) * (2 ^ target) ^ 2 := by
            rw [reading_of_finite reads, shifted, zpow_add₀ two_ne_zero, zpow_natCast, two_mul,
              zpow_add₀ two_ne_zero]
            simp only [factor]
            push_cast
            ring
          rw [square, Real.sqrt_mul (Nat.cast_nonneg _), Real.sqrt_sq (zpow_pos two_pos _).le]
          exact (one_mul _).symm
        rw [same, reads]
        unfold UnpackedFloat.sqrt sqrtCore
        simp only [Nat.shiftLeft_eq, ← isTarget, ← isShift]
        exact rounds

end Grove.Single
