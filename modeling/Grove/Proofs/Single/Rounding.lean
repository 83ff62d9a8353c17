import Grove.Proofs.Single.Order

/-!
# Exact quotients

A quotient that single precision can represent is what a division rounds to. Decimals whose value is
a number of single precision are therefore read without error.
-/

set_option autoImplicit false

namespace Grove.Single

open Float.Model (Format totalExponent UnpackedFloat)
open Float.Model.UnpackedFloat

theorem targetExponent_eq (exponent : Int) :
    Format.binary32.targetExponent exponent = max (exponent - 24) (-149) := rfl

theorem Canonical.targetExponent {significand : Nat} {exponent : Int}
    (canonical : Canonical significand exponent) :
    Format.binary32.targetExponent (totalExponent significand exponent) = exponent := by
  obtain ⟨positive, bounded, least, -, normal⟩ := canonical
  have nonzero : significand ≠ 0 := Nat.ne_of_gt positive
  have digits : significand.log2 < 24 := (Nat.log2_lt nonzero).mpr bounded
  rw [targetExponent_eq]
  unfold totalExponent
  rcases normal with normal | subnormal
  · have most : 23 ≤ significand.log2 := (Nat.le_log2 nonzero).mpr normal
    omega
  · omega

theorem log2_mul_two_pow {value : Nat} (positive : 0 < value) (shift : Nat) :
    (value * 2 ^ shift).log2 = value.log2 + shift := by
  have nonzero : value ≠ 0 := Nat.ne_of_gt positive
  rw [Nat.log2_eq_iff (Nat.mul_ne_zero nonzero (Nat.ne_of_gt (Nat.two_pow_pos shift)))]
  constructor
  · rw [Nat.pow_add]
    exact Nat.mul_le_mul_right _ (Nat.log2_self_le nonzero)
  · rw [Nat.add_right_comm, Nat.pow_add]
    exact Nat.mul_lt_mul_of_pos_right Nat.lt_log2_self (Nat.two_pow_pos shift)

theorem totalExponent_shift {significand : Nat} (positive : 0 < significand) (exponent : Int)
    (shift : Nat) :
    totalExponent (significand * 2 ^ shift) (exponent - shift) =
      totalExponent significand exponent := by
  unfold totalExponent
  rw [log2_mul_two_pow positive]
  omega

theorem shiftRight_exact (significand shift : Nat) :
    (⟨significand * 2 ^ shift, false, false⟩ : ExtendedMantissa) >>> shift =
      ⟨significand, false, false⟩ := by
  change shift.repeat ExtendedMantissa.shiftRightOne _ = _
  induction shift generalizing significand with
  | zero => rw [Nat.pow_zero, Nat.mul_one, Nat.repeat]
  | succ shift induction =>
      have halved : (2 * significand) / 2 = significand := by omega
      have even : (2 * significand) % 2 = 0 := by omega
      rw [Nat.pow_succ', ← Nat.mul_assoc, Nat.mul_comm significand 2, Nat.repeat, induction]
      unfold ExtendedMantissa.shiftRightOne
      simp only [halved, even, Bool.or_false, bne_self_eq_false]

theorem shiftToTargetExponent_exact {significand : Nat} {exponent : Int}
    (canonical : Canonical significand exponent) (shift : Nat) :
    shiftToTargetExponent .binary32 (significand * 2 ^ shift) (exponent - shift) .exact =
      (⟨significand, false, false⟩, exponent) := by
  have amount : (exponent - (exponent - shift)).toNat = shift := by omega
  unfold shiftToTargetExponent shiftToExponent
  dsimp only
  rw [totalExponent_shift canonical.positive, canonical.targetExponent, amount]
  change ((⟨_, false, false⟩ : ExtendedMantissa) >>> shift, _) = _
  rw [shiftRight_exact, Int.sub_add_cancel]

/-- A representable number, written with more binary digits, is rounded to itself. -/
theorem roundWithAccuracy_exact {significand : Nat} {exponent : Int}
    (canonical : Canonical significand exponent) (sign : Sign) (shift : Nat) :
    roundWithAccuracy .binary32 sign (significand * 2 ^ shift) (exponent - shift) .exact =
      .finite sign significand exponent canonical.positive := by
  have again := shiftToTargetExponent_exact canonical 0
  rw [Nat.pow_zero, Nat.mul_one, Int.natCast_zero, Int.sub_zero] at again
  have rounded : (⟨significand, false, false⟩ : ExtendedMantissa).roundedMantissa =
      significand := rfl
  unfold roundWithAccuracy
  rw [shiftToTargetExponent_exact canonical]
  simp only [rounded, again]
  rw [dif_neg (Nat.ne_of_gt canonical.positive)]

theorem log2_quotient {numerator denominator significand up down : Nat}
    (positive : 0 < numerator)
    (product : numerator * 2 ^ down = significand * 2 ^ up * denominator) :
    numerator.log2 + down < significand.log2 + up + denominator.log2 + 2 := by
  have least : 2 ^ (numerator.log2 + down) ≤ numerator * 2 ^ down := by
    rw [Nat.pow_add]
    exact Nat.mul_le_mul_right _ (Nat.log2_self_le (Nat.ne_of_gt positive))
  have most : significand * 2 ^ up * denominator <
      2 ^ (significand.log2 + 1 + up + (denominator.log2 + 1)) := by
    rw [Nat.pow_add, Nat.pow_add]
    exact Nat.mul_lt_mul_of_lt_of_lt
      (Nat.mul_lt_mul_of_pos_right Nat.lt_log2_self (Nat.two_pow_pos up)) Nat.lt_log2_self
  have powers := Nat.lt_of_le_of_lt (product ▸ least) most
  have exponents := (Nat.pow_lt_pow_iff_right (by decide)).mp powers
  omega

/-- A division with a representable quotient gives that quotient. -/
theorem div_exact {numerator denominator significand : Nat} {exponent : Int}
    (canonical : Canonical significand exponent) (numeratorPositive : 0 < numerator)
    (denominatorPositive : 0 < denominator)
    (product : numerator * 2 ^ (-exponent).toNat =
      significand * 2 ^ exponent.toNat * denominator) :
    UnpackedFloat.div .binary32 (.finite .positive numerator 0 numeratorPositive)
        (.finite .positive denominator 0 denominatorPositive) =
      .finite .positive significand exponent canonical.positive := by
  have digits := log2_quotient numeratorPositive product
  have nonzero : significand ≠ 0 := Nat.ne_of_gt canonical.positive
  have short : significand.log2 < 24 := (Nat.log2_lt nonzero).mpr canonical.bounded
  have least := canonical.least
  obtain ⟨target, targeted⟩ : ∃ target, target = min (0 - 0) (Format.binary32.targetExponent
      (totalExponent numerator 0 - totalExponent denominator 0)) := ⟨_, rfl⟩
  have below : target ≤ exponent ∧ target ≤ 0 := by
    rw [targeted, targetExponent_eq]
    unfold totalExponent
    omega
  obtain ⟨shift, shifted⟩ : ∃ shift, shift = (0 - 0 - target).toNat := ⟨_, rfl⟩
  obtain ⟨extra, surplus⟩ : ∃ extra : Nat, exponent - target = extra :=
    ⟨(exponent - target).toNat, by omega⟩
  have shiftedProduct : numerator <<< shift = significand * 2 ^ extra * denominator := by
    obtain ⟨rest, wide⟩ : ∃ rest, shift = (-exponent).toNat + rest :=
      ⟨shift - (-exponent).toNat, by omega⟩
    have wider : extra = exponent.toNat + rest := by omega
    rw [Nat.shiftLeft_eq, wide, wider, Nat.pow_add, Nat.pow_add, ← Nat.mul_assoc, product,
      Nat.mul_right_comm, ← Nat.mul_assoc]
  change (let (m, e, accuracy) := divCore .binary32 numerator 0 denominator 0
    roundWithAccuracy .binary32 (Sign.positive / Sign.positive) m e accuracy) = _
  unfold divCore
  dsimp only
  rw [← targeted, ← shifted, shiftedProduct, Nat.mul_div_cancel _ denominatorPositive,
    Nat.mul_mod_left]
  have start : target = exponent - extra := by omega
  rw [start]
  exact roundWithAccuracy_exact canonical .positive extra

/-- A decimal with a representable value is read as that value. -/
theorem ofScientific_exact {digits places significand : Nat} {exponent : Int}
    (canonical : Canonical significand exponent) (positive : 0 < digits) (many : 10 < places)
    (few : places ≤ 2 ^ 8)
    (product : digits * 2 ^ (-exponent).toNat = significand * 2 ^ exponent.toNat * 10 ^ places) :
    Float32.ofScientific digits true places =
      encode (.finite .positive significand exponent canonical.positive) := by
  have power : Int.negOfNat places = -(places : Int) := Int.negOfNat_eq
  have negated : (-Int.negOfNat places).toNat = places := by
    rw [power]
    omega
  have small : ¬ Int.negOfNat places > 2 ^ Format.binary32.exponentBits := by
    rw [power]
    change ¬ -(places : Int) > 256
    omega
  have large : ¬ Int.negOfNat places <
      -((2 ^ Format.binary32.exponentBits : Int) + digits.log2) := by
    rw [power]
    change ¬ -(places : Int) < -(256 + digits.log2)
    omega
  have negative : ¬ 0 ≤ Int.negOfNat places := by
    rw [power]
    omega
  have read : UnpackedFloat.ofScientific .binary32 digits (Int.negOfNat places) =
      .finite .positive significand exponent canonical.positive := by
    unfold UnpackedFloat.ofScientific
    rw [dif_neg (Nat.ne_of_gt positive), if_neg small, if_neg large, if_neg negative]
    simp only [negated]
    exact div_exact canonical positive (Nat.pow_pos (by decide)) product
  unfold Float32.ofScientific
  rw [dif_neg fun fast => Nat.not_lt.mpr fast.2 many]
  change encode (UnpackedFloat.ofScientific .binary32 digits (Int.negOfNat places)) = _
  rw [read]

end Grove.Single
