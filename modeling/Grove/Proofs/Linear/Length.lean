import Mathlib.Tactic.FieldSimp
import Mathlib.Tactic.LinearCombination
import Grove.Proofs.Exact.Scalar
import Grove.Proofs.Linear.Vector

/-!
# Lengths in exact arithmetic

A multiple of a unit vector is as long as its factor, and every vector that is not zero is its
length times a unit vector.
-/

set_option autoImplicit false

namespace Grove.Vec3

theorem length_mul {direction : Vec3 ℝ} {length : ℝ} (unit : direction.lengthSquared = 1)
    (nonneg : 0 ≤ length) : (direction * length).length = length := by
  have square : (direction * length).lengthSquared = length ^ 2 := by
    rw [lengthSquared_eq] at unit ⊢
    simp only [mul_x, mul_y, mul_z]
    linear_combination length ^ 2 * unit
  change √_ = length
  rw [square, Real.sqrt_sq nonneg]

theorem normalize_of_pos {vector : Vec3 ℝ} (positive : 0 < vector.lengthSquared) :
    vector.normalize.lengthSquared = 1 ∧ 0 < vector.length ∧
      vector = vector.normalize * vector.length := by
  have length : 0 < vector.length := Real.sqrt_pos.mpr positive
  have square : vector.length ^ 2 = vector.lengthSquared := Real.sq_sqrt positive.le
  refine ⟨?_, length, ?_⟩
  · rw [lengthSquared_eq] at square ⊢
    simp only [normalize, mul_x, mul_y, mul_z]
    field_simp
    linear_combination -square
  · ext <;> simp [normalize, length.ne']

theorem normalize_of_unit {vector : Vec3 ℝ} (unit : vector.lengthSquared = 1) :
    vector.normalize = vector := by
  have length : vector.length = 1 := by
    rw [length, unit]
    exact Real.sqrt_one
  ext <;> simp [normalize, length]

end Grove.Vec3
