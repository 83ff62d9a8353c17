import Mathlib.Analysis.SpecialFunctions.Trigonometric.Basic
import Grove.Scalar

/-!
# Exact arithmetic

The real numbers are scalars that compute without rounding. There are no infinities among them and
nothing that is not a number, so that the comparisons of the library are those of the real line.
-/

set_option autoImplicit false

namespace Grove

noncomputable instance : Scalar ℝ where
  decidableLT := fun _ _ => inferInstance
  decidableLE := fun _ _ => inferInstance
  abs := fun value => |value|
  sqrt := Real.sqrt
  sin := Real.sin
  cos := Real.cos
  tan := Real.tan
  pi := Real.pi
  isFinite := fun _ => true

namespace Exact

theorem isNaN_eq_false (value : ℝ) : Scalar.isNaN value = false := by
  simp [Scalar.isNaN]

theorem max_eq (left right : ℝ) : Scalar.max left right = max left right := by
  unfold Scalar.max
  rw [isNaN_eq_false, if_neg Bool.false_ne_true]
  rcases lt_or_ge left right with less | greater
  · rw [if_pos less, max_eq_right less.le]
  · rw [if_neg greater.not_gt, max_eq_left greater]

theorem clamp_eq {low high : ℝ} (ordered : low ≤ high) (value : ℝ) :
    Scalar.clamp value low high = max low (min value high) := by
  unfold Scalar.clamp
  rcases lt_or_ge value low with below | above
  · rw [if_pos below]
    dsimp only
    rw [if_neg ordered.not_gt, max_eq_left ((min_le_left value high).trans below.le)]
  · rw [if_neg above.not_gt]
    dsimp only
    rcases lt_or_ge high value with beyond | within
    · rw [if_pos beyond, min_eq_right beyond.le, max_eq_right ordered]
    · rw [if_neg within.not_gt, min_eq_left within, max_eq_right above]

end Exact

end Grove
