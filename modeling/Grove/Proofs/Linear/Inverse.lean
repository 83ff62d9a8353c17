import Grove.Proofs.Linear.Matrix

/-!
# Inverse matrices in exact arithmetic

The inverse by cofactors undoes every matrix whose determinant is not zero, from both sides, also
where the last row is not that of a placement.
-/

set_option autoImplicit false

namespace Grove

attribute [ext] Vec4

theorem Vec4.scale_scale (vector : Vec4 ℝ) (first second : ℝ) :
    vector * first * second = vector * (first * second) := by
  obtain ⟨_, _, _, _⟩ := vector
  ext <;> exact mul_assoc _ _ _

namespace Mat4

theorem inverse_undoes {matrix : Mat4 ℝ} (regular : matrix.determinant ≠ 0) (vector : Vec4 ℝ) :
    matrix.apply (matrix.inverse.apply vector) = vector ∧
      matrix.inverse.apply (matrix.apply vector) = vector := by
  have reciprocal := one_div_mul_cancel regular
  obtain ⟨⟨a0, a1, a2, a3⟩, ⟨b0, b1, b2, b3⟩, ⟨c0, c1, c2, c3⟩, ⟨d0, d1, d2, d3⟩⟩ := matrix
  obtain ⟨x, y, z, w⟩ := vector
  simp only [determinant, Vec4.dot] at reciprocal
  simp only [inverse, apply, Vec4.dot, Vec4.add_mk, Vec4.sub_mk, Vec4.mul_mk, Vec4.scale_mk]
  -- The inverse divides by an expansion of its own of the determinant.
  generalize isFactor : (1 : ℝ) / _ = factor
  generalize isOther : (1 : ℝ) / _ = other at reciprocal
  obtain rfl : factor = other := by
    rw [← isFactor, ← isOther]
    congr 1
    ring
  constructor <;> ext <;> simp only
  · linear_combination x * reciprocal
  · linear_combination y * reciprocal
  · linear_combination z * reciprocal
  · linear_combination w * reciprocal
  · linear_combination x * reciprocal
  · linear_combination y * reciprocal
  · linear_combination z * reciprocal
  · linear_combination w * reciprocal

theorem apply_injective {matrix : Mat4 ℝ} (regular : matrix.determinant ≠ 0) :
    Function.Injective matrix.apply :=
  Function.LeftInverse.injective fun vector => (inverse_undoes regular vector).2

theorem apply_scale (matrix : Mat4 ℝ) (vector : Vec4 ℝ) (factor : ℝ) :
    matrix.apply (vector * factor) = matrix.apply vector * factor := by
  obtain ⟨⟨_, _, _, _⟩, ⟨_, _, _, _⟩, ⟨_, _, _, _⟩, ⟨_, _, _, _⟩⟩ := matrix
  obtain ⟨_, _, _, _⟩ := vector
  simp only [apply, Vec4.add_mk, Vec4.scale_mk]
  ext <;> simp only <;> ring

theorem apply_add (matrix : Mat4 ℝ) (first second : Vec4 ℝ) :
    matrix.apply (first + second) = matrix.apply first + matrix.apply second := by
  obtain ⟨⟨_, _, _, _⟩, ⟨_, _, _, _⟩, ⟨_, _, _, _⟩, ⟨_, _, _, _⟩⟩ := matrix
  obtain ⟨_, _, _, _⟩ := first
  obtain ⟨_, _, _, _⟩ := second
  simp only [apply, Vec4.add_mk, Vec4.scale_mk]
  ext <;> simp only <;> ring

end Mat4

end Grove
