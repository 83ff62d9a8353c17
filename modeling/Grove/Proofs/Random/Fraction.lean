import Grove.Proofs.Random.Sampling
import Grove.Proofs.Single.Arithmetic
import Grove.Proofs.Single.Bounds

/-!
# Samples of a range in single precision

The fraction that a random word stands for lies between zero and one, whether it is drawn by itself or
for a range, so that no sample of a range is below its lower end.
-/

set_option autoImplicit false

namespace Grove.Single

open Float.Model (UnpackedFloat)
open Float.Model.UnpackedFloat

theorem add_swap (left right : Float32) : left + right = right + left := by
  change encode (UnpackedFloat.add .binary32 (meaning left) (meaning right)) =
    encode (UnpackedFloat.add .binary32 (meaning right) (meaning left))
  congr 1
  cases meaning left <;> cases meaning right <;>
    simp only [UnpackedFloat.add, Int.add_comm, Int.min_comm]
  case infinity.infinity sign other | zero.zero sign other => cases sign <;> cases other <;> rfl

/-- A natural number of few digits is rounded to itself. -/
theorem reading_normalize {count : ℕ} (few : count < 2 ^ 24) :
    (encode (UnpackedFloat.normalize .binary32 count 0 .positive)).isFinite = true ∧
      reading (encode (UnpackedFloat.normalize .binary32 count 0 .positive)) = count := by
  have grid : OnGrid (count : ℝ) :=
    ⟨count, 0, by rw [Nat.abs_cast]; omega, by norm_num, by norm_num⟩
  have rounds := rounds_normalize count 0
  rw [zpow_zero, mul_one, Int.cast_natCast] at rounds
  refine rounds.reading_eq grid ?_
  rw [Nat.abs_cast]
  exact_mod_cast few.trans (by norm_num)

/-- Natural numbers of few digits are read without error. -/
theorem reading_ofNat {count : ℕ} (few : count < 2 ^ 23) :
    (Scalar.ofNat count : Float32).isFinite = true ∧
      reading (Scalar.ofNat count : Float32) = count := by
  have small : count < 2 ^ 64 := few.trans (by norm_num)
  have fast : (Scalar.ofNat count : Float32) = count.toUInt64.toFloat32 * 1 := by
    change Float32.ofScientific count false 0 = _
    rw [Float32.ofScientific, dif_pos ⟨few, by norm_num⟩]
    rfl
  have said : count.toUInt64.toFloat32 =
      encode (UnpackedFloat.normalize .binary32 count.toUInt64.toNat 0 .positive) := rfl
  have same : count.toUInt64.toNat = count := Nat.mod_eq_of_lt small
  have exactly := reading_normalize (few.trans (by norm_num))
  rw [fast, said, same]
  obtain ⟨finite, reads⟩ := finite_mul_one exactly.1
  exact ⟨finite, reads.trans exactly.2⟩

/-- A number from zero up to one, but not one itself. -/
structure Fraction (value : Float32) : Prop where
  finite : value.isFinite = true
  least : 0 ≤ reading value
  below : reading value < 1

theorem Fraction.inUnit {value : Float32} (fraction : Fraction value) : InUnit value :=
  ⟨fraction.finite, fraction.least, fraction.below.le⟩

theorem Fraction.place_lt {value : Float32} (fraction : Fraction value) :
    place value < place 1 := by
  by_contra reached
  have most := reading_le (by decide) fraction.finite (not_lt.mp reached)
  rw [reading_one] at most
  exact absurd fraction.below (not_lt.mpr most)

/-- A natural number of few digits, divided by a power of two that is above it. -/
theorem fraction_div {part whole : Float32} {count places : ℕ}
    (reads : part.isFinite = true ∧ reading part = count) (wholeFinite : whole.isFinite = true)
    (wholeReads : reading whole = 2 ^ places) (few : count < 2 ^ places) (small : places ≤ 24) :
    Fraction (part / whole) := by
  have positive : (0 : ℝ) < 2 ^ places := by positivity
  have rounds := rounds_div reads.1 wholeFinite (wholeReads ▸ positive.ne')
  rw [reads.2, wholeReads, ← div_eq_mul_inv] at rounds
  have least : (0 : ℝ) ≤ count / 2 ^ places := by positivity
  have below : (count : ℝ) / 2 ^ places < 1 := (div_lt_one positive).mpr (by exact_mod_cast few)
  have digits : count < 2 ^ 24 := few.trans_le (Nat.pow_le_pow_right two_pos small)
  have grid : OnGrid ((count : ℝ) / 2 ^ places) := by
    refine ⟨count, -places, by rw [Nat.abs_cast]; omega, by omega, ?_⟩
    rw [zpow_neg, zpow_natCast, ← div_eq_mul_inv, Int.cast_natCast]
  obtain ⟨finite, exactly⟩ := rounds.reading_eq grid
    (by rw [abs_of_nonneg least]; exact below.trans (by norm_num))
  exact ⟨finite, exactly ▸ least, exactly ▸ below⟩

/-- The upper part of a random word is below a power of two. -/
theorem toNat_shiftRight_lt (word : UInt32) {shift : UInt32} {places : ℕ}
    (same : shift.toNat % 32 = 32 - places) (few : places ≤ 32) :
    (word >>> shift).toNat < 2 ^ places := by
  have bound : word.toNat < 2 ^ places * 2 ^ (32 - places) := by
    rw [← pow_add, Nat.add_sub_cancel' few]
    exact word.toNat_lt
  rw [UInt32.toNat_shiftRight, same, Nat.shiftRight_eq_div_pow]
  exact (Nat.div_lt_iff_lt_mul (by positivity)).mpr bound

theorem fraction_rangeFraction (word : UInt32) : Fraction (rangeFraction word : Float32) := by
  have few : (word >>> 9).toNat < 2 ^ 23 := toNat_shiftRight_lt word rfl (by norm_num)
  have said : meaning (8388608.0 : Float32) = .finite .positive (2 ^ 23) 0 (by decide) := rfl
  have whole : reading (8388608.0 : Float32) = 2 ^ 23 := by
    rw [reading_of_finite said]
    norm_num [factor]
  exact fraction_div (reading_ofNat few) (by decide) whole few (by norm_num)

theorem fraction_drawFraction {σ : Type} [Generator σ] (stream : σ) :
    Fraction (drawFraction stream).1 := by
  obtain ⟨word, isWord⟩ : ∃ word, word = (draw stream).1 := ⟨_, rfl⟩
  have drawn : (drawFraction stream).1 = (word >>> 8).toFloat32 / 16777216.0 := by
    rw [isWord]
    rfl
  have few : (word >>> 8).toNat < 2 ^ 24 := toNat_shiftRight_lt word rfl (by norm_num)
  have read : (word >>> 8).toFloat32 =
      encode (UnpackedFloat.normalize .binary32 (word >>> 8).toNat 0 .positive) := rfl
  have said : meaning (16777216.0 : Float32) = .finite .positive (2 ^ 23) 1 (by decide) := rfl
  have whole : reading (16777216.0 : Float32) = 2 ^ 24 := by
    rw [reading_of_finite said]
    norm_num [factor]
  rw [drawn]
  exact fraction_div (read ▸ reading_normalize few) (by decide) whole few le_rfl

end Grove.Single

namespace Grove

open Single

variable {σ : Type} [Generator σ]

/-- No sample of a range is below its lower end. -/
theorem Sampling.le_of_drawRange {low high sample : Float32} {stream rest : σ}
    (finite : low.isFinite = true) (nonneg : 0 ≤ place low)
    (run : drawRange low high stream = .ok (sample, rest)) : low ≤ sample := by
  unfold drawRange at run
  split at run
  · rename_i ordered
    dsimp only at run
    split at run
    · rename_i width
      obtain ⟨word, between, -, run⟩ := Sampling.bind_eq_ok_iff.mp run
      cases Sampling.pure_eq_ok_iff.mp run
      obtain ⟨lowNumber, -, above⟩ := le_iff.mp ordered
      have highFinite := (finite_of_sub width).1
      have widthNear := (rounds_sub highFinite finite).near_of_finite width
      have widthNonneg := widthNear.least 0 onGrid_zero
        (sub_nonneg.mpr (reading_le finite highFinite above))
      have unit := (fraction_rangeFraction word).inUnit
      have share := unit.near_mul width
      have shareNonneg := place_nonneg share.finite
        (share.least 0 onGrid_zero (mul_nonneg unit.least widthNonneg))
      have shareNumber := (isFinite_iff_place.mp share.finite).1
      rw [add_swap, le_iff]
      exact ⟨lowNumber, add_isNaN finite shareNumber,
        le_place_add finite nonneg shareNumber shareNonneg⟩
    · cases run
  · cases run

end Grove
