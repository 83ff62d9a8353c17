import Grove.Proofs.Single.Sum

/-!
# Rounding of real numbers

A finite number of single precision reads a real number. Every operation rounds the exact result of
the numbers read: it does not carry it past any number that has the digits of single precision. What
the operations do to bounds of real numbers follows from that, without a word about errors.
-/

set_option autoImplicit false

namespace Grove.Single

open Float.Model (Format totalExponent UnpackedFloat)
open Float.Model.UnpackedFloat

/-! ## The grid -/

/-- The real numbers that have the digits of single precision, however far from zero. -/
def OnGrid (bound : ℝ) : Prop :=
  ∃ (digits : ℤ) (exponent : ℤ),
    |digits| ≤ 2 ^ 24 ∧ -149 ≤ exponent ∧ bound = digits * 2 ^ exponent

theorem OnGrid.neg {bound : ℝ} (grid : OnGrid bound) : OnGrid (-bound) := by
  obtain ⟨digits, exponent, bounded, least, rfl⟩ := grid
  exact ⟨-digits, exponent, (abs_neg digits).trans_le bounded, least, by push_cast; ring⟩

theorem OnGrid.abs {bound : ℝ} (grid : OnGrid bound) : OnGrid |bound| := by
  rcases abs_choice bound with same | opposite
  · rwa [same]
  · rw [opposite]
    exact grid.neg

theorem onGrid_zero : OnGrid 0 :=
  ⟨0, 0, by norm_num, by norm_num, by norm_num⟩

theorem onGrid_two_zpow {exponent : ℤ} (least : -149 ≤ exponent) :
    OnGrid ((2 : ℝ) ^ exponent) :=
  ⟨1, exponent, by norm_num, least, by norm_num⟩

/-- The unit between numbers of many digits is so coarse that the grid has no number strictly between
two neighbouring multiples. -/
theorem OnGrid.le_or_le {bound : ℝ} (grid : OnGrid bound) {quotient : ℕ} {exponent : ℤ}
    (full : 2 ^ 23 ≤ quotient ∨ exponent = -149) :
    bound ≤ quotient * 2 ^ exponent ∨ (quotient + 1) * 2 ^ exponent ≤ bound := by
  obtain ⟨digits, own, bounded, least, rfl⟩ := grid
  have unit : (0 : ℝ) < 2 ^ exponent := zpow_pos two_pos exponent
  -- A bound with a coarser unit is a multiple of this unit. One with a finer unit has too few digits
  -- to come up to the multiples.
  rcases le_or_gt exponent own with coarse | fine
  · obtain ⟨shift, rfl⟩ : ∃ shift : ℕ, own = exponent + shift :=
      ⟨(own - exponent).toNat, by omega⟩
    have same : (digits : ℝ) * 2 ^ (exponent + (shift : ℤ)) =
        ((digits * 2 ^ shift : ℤ) : ℝ) * 2 ^ exponent := by
      rw [zpow_add₀ two_ne_zero, zpow_natCast]
      push_cast
      ring
    rw [same]
    rcases le_or_gt (digits * 2 ^ shift) (quotient : ℤ) with below | above
    · left
      exact mul_le_mul_of_nonneg_right (by exact_mod_cast below) unit.le
    · right
      exact mul_le_mul_of_nonneg_right (by exact_mod_cast above) unit.le
  · left
    have normal : (2 : ℝ) ^ 23 ≤ quotient := by
      rcases full with full | bottom
      · exact_mod_cast full
      · omega
    have few : (digits : ℝ) ≤ 2 ^ 24 := by exact_mod_cast (le_abs_self digits).trans bounded
    have halved : (2 : ℝ) ^ own ≤ 2 ^ (exponent - 1) :=
      zpow_le_zpow_right₀ one_le_two (by omega)
    calc (digits : ℝ) * 2 ^ own ≤ 2 ^ 24 * 2 ^ own :=
          mul_le_mul_of_nonneg_right few (zpow_pos two_pos own).le
      _ ≤ 2 ^ 24 * 2 ^ (exponent - 1) := mul_le_mul_of_nonneg_left halved (by positivity)
      _ = 2 ^ 23 * 2 ^ exponent := by
          rw [zpow_sub_one₀ two_ne_zero]
          ring
      _ ≤ quotient * 2 ^ exponent := mul_le_mul_of_nonneg_right normal unit.le

/-! ## What is said, as a real number -/

noncomputable def factor : Sign → ℝ
  | .positive => 1
  | .negative => -1

/-- The real number that is said. The infinities and what is not a number say none, and count as
zero. -/
noncomputable def amount : UnpackedFloat → ℝ
  | .finite sign significand exponent _ => factor sign * (significand * 2 ^ exponent)
  | _ => 0

/-- What rounding makes: zero, or a significand and an exponent that fit, unless the exponent is
too great. -/
inductive Fits : UnpackedFloat → Prop
  | zero (sign : Sign) : Fits (.zero sign)
  | finite (sign : Sign) {significand : ℕ} {exponent : ℤ} (positive : 0 < significand)
      (bounded : significand < 2 ^ 24) (least : -149 ≤ exponent)
      (normal : 2 ^ 23 ≤ significand ∨ exponent = -149) :
      Fits (.finite sign significand exponent positive)

/-- Nothing on the grid lies strictly between an exact value and what is said. -/
structure Rounds (exact : ℝ) (said : UnpackedFloat) : Prop where
  fits : Fits said
  least : ∀ bound, OnGrid bound → bound ≤ exact → bound ≤ amount said
  most : ∀ bound, OnGrid bound → exact ≤ bound → amount said ≤ bound

/-- A significand cut off an exact value, and how much there is behind it. -/
structure Truncates (exact : ℝ) (significand : ℕ) (exponent : ℤ) (accuracy : Accuracy) :
    Prop where
  least : significand * 2 ^ exponent ≤ exact
  most : exact < (significand + 1) * 2 ^ exponent
  exactly : exact = significand * 2 ^ exponent → accuracy = .exact

theorem Truncates.exact (significand : ℕ) (exponent : ℤ) :
    Truncates (significand * 2 ^ exponent) significand exponent .exact where
  least := le_rfl
  most := by
    have unit : (0 : ℝ) < 2 ^ exponent := zpow_pos two_pos exponent
    linarith
  exactly _ := rfl

/-! ## The two shifts of a rounding -/

theorem shiftToTargetExponent_eq_shiftRight (significand : ℕ) (exponent : ℤ)
    (accuracy : Accuracy) :
    shiftToTargetExponent .binary32 significand exponent accuracy =
      (ExtendedMantissa.ofMantissaAndAccuracy significand accuracy >>>
          (max (significand.log2 + 1 + exponent - 24) (-149) - exponent).toNat,
        exponent + (max (significand.log2 + 1 + exponent - 24) (-149) - exponent).toNat) :=
  rfl

theorem ofMantissaAndAccuracy_mantissa (significand : ℕ) (accuracy : Accuracy) :
    (ExtendedMantissa.ofMantissaAndAccuracy significand accuracy).mantissa = significand := by
  cases accuracy with
  | exact => rfl
  | inexact order => cases order <;> rfl

/-- A significand that has been rounded is what the result reads, also where it is full. -/
theorem rounded_again {rounded : ℕ} {exponent : ℤ} (bounded : rounded ≤ 2 ^ 24)
    (least : -149 ≤ exponent) (normal : 2 ^ 23 ≤ rounded ∨ exponent = -149) (sign : Sign) :
    let again := shiftToTargetExponent .binary32 rounded exponent .exact
    let said : UnpackedFloat :=
      if empty : again.1.mantissa = 0 then .zero sign
      else .finite sign again.1.mantissa again.2 (Nat.pos_of_ne_zero empty)
    Fits said ∧ amount said = factor sign * (rounded * 2 ^ exponent) := by
  intro again said
  rcases Nat.eq_zero_or_pos rounded with rfl | positive
  · have empty : again.1.mantissa = 0 := by
      simp only [again, shiftToTargetExponent_eq_shiftRight, mantissa_shiftRight,
        ofMantissaAndAccuracy_mantissa, Nat.zero_div]
    have zero : said = .zero sign := dif_pos empty
    rw [zero]
    exact ⟨.zero sign, by simp [amount]⟩
  · rcases Nat.lt_or_eq_of_le bounded with small | full
    · have digits : rounded.log2 < 24 := (Nat.log2_lt (Nat.ne_of_gt positive)).mpr small
      have noShift : (max (rounded.log2 + 1 + exponent - 24) (-149) - exponent).toNat = 0 := by
        omega
      have same : again = (⟨rounded, false, false⟩, exponent) := by
        simp only [again, shiftToTargetExponent_eq_shiftRight, noShift]
        exact congrArg (Prod.mk _) (Int.add_zero exponent)
      have finite : said = .finite sign rounded exponent positive := by
        simp only [said, same]
        exact dif_neg (Nat.ne_of_gt positive)
      rw [finite]
      exact ⟨.finite sign positive small least normal, rfl⟩
    -- The significand has filled up. The digit that is cut off from it now is a zero.
    · have digits : rounded.log2 = 24 := full ▸ Nat.log2_two_pow
      have oneShift : (max (rounded.log2 + 1 + exponent - 24) (-149) - exponent).toNat = 1 := by
        omega
      have same : again.1.mantissa = 2 ^ 23 ∧ again.2 = exponent + 1 := by
        simp only [again, shiftToTargetExponent_eq_shiftRight, oneShift, mantissa_shiftRight,
          ofMantissaAndAccuracy_mantissa]
        exact ⟨by omega, rfl⟩
      have finite : said = .finite sign (2 ^ 23) (exponent + 1) (by decide) := by
        simp only [said, same]
        exact dif_neg (by decide)
      rw [finite]
      refine ⟨.finite sign (by decide) (by decide) (by omega) (.inl le_rfl), ?_⟩
      simp only [amount, full]
      rw [zpow_add_one₀ two_ne_zero]
      push_cast
      ring

/-- What was cut off by one truncation and by a shift after it lies below one coarse unit. -/
theorem Truncates.shift {exact : ℝ} {significand : ℕ} {exponent : ℤ} {accuracy : Accuracy}
    (truncates : Truncates exact significand exponent accuracy) (shift : ℕ) :
    let quotient := significand / 2 ^ shift
    quotient * 2 ^ (exponent + shift) ≤ exact ∧
      exact < (quotient + 1) * 2 ^ (exponent + shift) ∧
      (exact = quotient * 2 ^ (exponent + shift) →
        significand = quotient * 2 ^ shift ∧ accuracy = .exact) := by
  intro quotient
  have unit : (0 : ℝ) < 2 ^ exponent := zpow_pos two_pos exponent
  have units : ∀ count : ℝ, count * 2 ^ (exponent + (shift : ℤ)) =
      count * 2 ^ shift * 2 ^ exponent := by
    intro count
    rw [zpow_add₀ two_ne_zero, zpow_natCast]
    ring
  have below : (quotient : ℝ) * 2 ^ shift ≤ significand := by
    exact_mod_cast Nat.div_mul_le_self significand (2 ^ shift)
  have above : (significand : ℝ) + 1 ≤ (quotient + 1) * 2 ^ shift := by
    exact_mod_cast Nat.lt_mul_of_div_lt (Nat.lt_succ_self quotient) (Nat.two_pow_pos shift)
  rw [units, units]
  refine ⟨(mul_le_mul_of_nonneg_right below unit.le).trans truncates.least,
    truncates.most.trans_le (mul_le_mul_of_nonneg_right above unit.le), fun same => ?_⟩
  have whole : (significand : ℝ) ≤ quotient * 2 ^ shift :=
    le_of_mul_le_mul_right (truncates.least.trans same.le) unit
  have exactly : (significand : ℝ) = quotient * 2 ^ shift := le_antisymm whole below
  exact ⟨by exact_mod_cast exactly, truncates.exactly (exactly ▸ same)⟩

/-- Rounding a shifted significand gives the quotient or the next number, and the quotient where
nothing was cut off. -/
theorem roundedMantissa_cases (significand : ℕ) (accuracy : Accuracy) (shift : ℕ) :
    let quotient := significand / 2 ^ shift
    let rounded :=
      (ExtendedMantissa.ofMantissaAndAccuracy significand accuracy >>> shift).roundedMantissa
    quotient ≤ rounded ∧ rounded ≤ quotient + 1 ∧
      (significand = quotient * 2 ^ shift ∧ accuracy = .exact → rounded = quotient) := by
  intro quotient rounded
  have shifted : (ExtendedMantissa.ofMantissaAndAccuracy significand accuracy >>> shift).mantissa =
      quotient := by
    rw [mantissa_shiftRight, ofMantissaAndAccuracy_mantissa]
  have lower := le_roundedMantissa
    (ExtendedMantissa.ofMantissaAndAccuracy significand accuracy >>> shift)
  have upper := roundedMantissa_le
    (ExtendedMantissa.ofMantissaAndAccuracy significand accuracy >>> shift)
  rw [shifted] at lower upper
  refine ⟨lower, upper, ?_⟩
  rintro ⟨exactly, nothing⟩
  simp only [rounded, nothing]
  change ((⟨significand, false, false⟩ : ExtendedMantissa) >>> shift).roundedMantissa = _
  conv_lhs => rw [exactly]
  rw [shiftRight_exact]
  rfl

/-- A significand that is shifted to its place has as many digits as fit. -/
theorem quotient_fits {significand shift : ℕ} {exponent : ℤ}
    (fine : exponent ≤ max (significand.log2 + 1 + exponent - 24) (-149))
    (isShift : shift = (max (significand.log2 + 1 + exponent - 24) (-149) - exponent).toNat) :
    significand / 2 ^ shift < 2 ^ 24 ∧ -149 ≤ exponent + shift ∧
      (2 ^ 23 ≤ significand / 2 ^ shift ∨ exponent + shift = -149) := by
  refine ⟨?_, by omega, ?_⟩
  · rw [Nat.div_lt_iff_lt_mul (Nat.two_pow_pos shift), ← Nat.pow_add]
    refine Nat.lt_of_lt_of_le Nat.lt_log2_self (Nat.pow_le_pow_right (by decide) ?_)
    omega
  · rcases Int.lt_or_le (-149) (exponent + shift) with normal | subnormal
    · left
      have nonzero : significand ≠ 0 := by
        rintro rfl
        simp only [Nat.log2_zero] at isShift fine
        omega
      rw [Nat.le_div_iff_mul_le (Nat.two_pow_pos shift), ← Nat.pow_add]
      refine Nat.le_trans (Nat.pow_le_pow_right (by decide) ?_) (Nat.log2_self_le nonzero)
      omega
    · right
      omega

/-- Of two neighbouring multiples of a coarse unit, either one bounds what lies between them, on the
grid. -/
theorem OnGrid.not_crossed {bound : ℝ} (grid : OnGrid bound) {exact : ℝ}
    {quotient rounded : ℕ} {exponent : ℤ} (full : 2 ^ 23 ≤ quotient ∨ exponent = -149)
    (lower : quotient ≤ rounded) (upper : rounded ≤ quotient + 1)
    (above : quotient * 2 ^ exponent ≤ exact) (below : exact < (quotient + 1) * 2 ^ exponent)
    (exactly : exact = quotient * 2 ^ exponent → rounded = quotient) :
    (bound ≤ exact → bound ≤ rounded * 2 ^ exponent) ∧
      (exact ≤ bound → rounded * 2 ^ exponent ≤ bound) := by
  have unit : (0 : ℝ) < 2 ^ exponent := zpow_pos two_pos exponent
  have least : (quotient : ℝ) * 2 ^ exponent ≤ rounded * 2 ^ exponent :=
    mul_le_mul_of_nonneg_right (by exact_mod_cast lower) unit.le
  have most : (rounded : ℝ) * 2 ^ exponent ≤ (quotient + 1) * 2 ^ exponent :=
    mul_le_mul_of_nonneg_right (by exact_mod_cast upper) unit.le
  rcases grid.le_or_le full with low | high
  · refine ⟨fun _ => low.trans least, fun beyond => ?_⟩
    have same : exact = quotient * 2 ^ exponent := le_antisymm (beyond.trans low) above
    rw [exactly same, ← same]
    exact beyond
  · exact ⟨fun under => absurd (high.trans under) (not_le.mpr below), fun _ => most.trans high⟩

/-- Rounding is the same on both sides of zero. -/
theorem Rounds.of_signed {exact value : ℝ} {said : UnpackedFloat} {sign : Sign} (fits : Fits said)
    (read : amount said = factor sign * value)
    (not_crossed : ∀ bound, OnGrid bound →
      (bound ≤ exact → bound ≤ value) ∧ (exact ≤ bound → value ≤ bound)) :
    Rounds (factor sign * exact) said := by
  refine ⟨fits, ?_, ?_⟩ <;> rw [read] <;> intro bound grid
  · cases sign with
    | positive => simpa only [factor, one_mul] using (not_crossed bound grid).1
    | negative =>
        simp only [factor, neg_one_mul]
        intro under
        exact le_neg_of_le_neg ((not_crossed _ grid.neg).2 (le_neg_of_le_neg under))
  · cases sign with
    | positive => simpa only [factor, one_mul] using (not_crossed bound grid).2
    | negative =>
        simp only [factor, neg_one_mul]
        intro beyond
        exact neg_le_of_neg_le ((not_crossed _ grid.neg).1 (neg_le_of_neg_le beyond))

/-- An exact value from which a fine enough significand was cut off is rounded. -/
theorem rounds_roundWithAccuracy {exact : ℝ} {significand : ℕ} {exponent : ℤ}
    {accuracy : Accuracy} (truncates : Truncates exact significand exponent accuracy)
    (fine : exponent ≤ Format.binary32.targetExponent (totalExponent significand exponent))
    (sign : Sign) :
    Rounds (factor sign * exact)
      (roundWithAccuracy .binary32 sign significand exponent accuracy) := by
  rw [targetExponent_eq] at fine
  unfold totalExponent at fine
  obtain ⟨shift, isShift⟩ : ∃ shift,
      shift = (max (significand.log2 + 1 + exponent - 24) (-149) - exponent).toNat := ⟨_, rfl⟩
  obtain ⟨bounded, least, full⟩ := quotient_fits fine isShift
  obtain ⟨lower, upper, unmoved⟩ := roundedMantissa_cases significand accuracy shift
  obtain ⟨above, below, exactly⟩ := truncates.shift shift
  obtain ⟨rounded, isRounded⟩ : ∃ rounded, rounded =
      (ExtendedMantissa.ofMantissaAndAccuracy significand accuracy >>> shift).roundedMantissa :=
    ⟨_, rfl⟩
  rw [← isRounded] at lower upper unmoved
  have result : Fits (roundWithAccuracy .binary32 sign significand exponent accuracy) ∧
      amount (roundWithAccuracy .binary32 sign significand exponent accuracy) =
        factor sign * (rounded * 2 ^ (exponent + (shift : ℤ))) := by
    unfold roundWithAccuracy
    rw [shiftToTargetExponent_eq_shiftRight, ← isShift]
    dsimp only
    rw [← isRounded]
    exact rounded_again (by omega) least (full.imp_left lower.trans') sign
  exact .of_signed result.1 result.2 fun bound grid =>
    grid.not_crossed full lower upper above below (unmoved ∘ exactly)

theorem rounds_round {significand : ℕ} (positive : 0 < significand) (exponent : ℤ) (sign : Sign) :
    Rounds (factor sign * (significand * 2 ^ exponent))
      (UnpackedFloat.round .binary32 sign significand exponent) := by
  unfold UnpackedFloat.round decreaseExponent
  dsimp only
  obtain ⟨shift, isShift⟩ : ∃ shift, shift =
      (exponent - Format.binary32.targetExponent (totalExponent significand exponent)).toNat :=
    ⟨_, rfl⟩
  rw [← isShift, Nat.shiftLeft_eq]
  have same : (significand : ℝ) * 2 ^ exponent =
      ((significand * 2 ^ shift : ℕ) : ℝ) * 2 ^ (exponent - (shift : ℤ)) := by
    rw [zpow_sub₀ two_ne_zero, zpow_natCast]
    push_cast
    field_simp
  rw [same]
  refine rounds_roundWithAccuracy (.exact _ _) ?_ sign
  rw [totalExponent_shift positive]
  omega

theorem rounds_zero (sign : Sign) : Rounds 0 (.zero sign) :=
  ⟨.zero sign, fun _ _ under => under, fun _ _ beyond => beyond⟩

theorem rounds_normalize (value exponent : ℤ) :
    Rounds (value * 2 ^ exponent) (UnpackedFloat.normalize .binary32 value exponent .positive) := by
  unfold UnpackedFloat.normalize
  rcases Int.lt_trichotomy value 0 with below | rfl | above
  · rw [Int.compare_eq_lt.mpr below]
    have rounds := @rounds_round (-value).toNat (by omega) exponent .negative
    have same : (((-value).toNat : ℕ) : ℝ) = -value := by
      exact_mod_cast Int.toNat_of_nonneg (by omega)
    simp only [factor, same, neg_mul, one_mul, neg_neg] at rounds
    exact rounds
  · rw [Int.compare_eq_eq.mpr rfl]
    simpa using rounds_zero .positive
  · rw [Int.compare_eq_gt.mpr above]
    have rounds := @rounds_round value.toNat (by omega) exponent .positive
    have same : ((value.toNat : ℕ) : ℝ) = value := by
      exact_mod_cast Int.toNat_of_nonneg above.le
    simp only [factor, one_mul, same] at rounds
    exact rounds

end Grove.Single
