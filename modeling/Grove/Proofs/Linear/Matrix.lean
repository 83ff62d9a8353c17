import Mathlib.Tactic.FieldSimp
import Mathlib.Tactic.LinearCombination
import Grove.Geometry.Ray
import Grove.Proofs.Exact.Scalar
import Grove.Proofs.Linear.Vector

/-!
# Placements in exact arithmetic

A placement that is not singular maps space onto space, one point to one point, and its inverse by
cofactors takes everything back. So the ray in the coordinates of a body is the one ray that the
placement maps to the ray in the world, parameter by parameter.
-/

set_option autoImplicit false

namespace Grove

namespace Mat4

/-- A matrix with the last row of a placement. -/
structure Affine (matrix : Mat4 ℝ) : Prop where
  x : matrix.xAxis.w = 0
  y : matrix.yAxis.w = 0
  z : matrix.zAxis.w = 0
  w : matrix.wAxis.w = 1

/-- The signed volume that the first three columns span. -/
noncomputable def volume (matrix : Mat4 ℝ) : ℝ :=
  matrix.xAxis.truncate.dot (matrix.yAxis.truncate.cross matrix.zAxis.truncate)

/-- The volumes that a direction spans with two of the columns, in place of the third. -/
noncomputable def cofactors (matrix : Mat4 ℝ) (direction : Vec3 ℝ) : Vec3 ℝ :=
  ⟨(matrix.yAxis.truncate.cross matrix.zAxis.truncate).dot direction,
   (matrix.zAxis.truncate.cross matrix.xAxis.truncate).dot direction,
   (matrix.xAxis.truncate.cross matrix.yAxis.truncate).dot direction⟩

theorem determinant_eq_volume {matrix : Mat4 ℝ} (affine : matrix.Affine) :
    matrix.determinant = matrix.volume := by
  obtain ⟨⟨_, _, _, _⟩, ⟨_, _, _, _⟩, ⟨_, _, _, _⟩, ⟨_, _, _, _⟩⟩ := matrix
  obtain ⟨rfl, rfl, rfl, rfl⟩ := affine
  simp only [determinant, volume, Vec4.dot, Vec3.dot, Vec3.cross, Vec4.truncate]
  ring

/-! ## Maps of space -/

theorem transformPoint_eq (matrix : Mat4 ℝ) (point : Vec3 ℝ) :
    matrix.transformPoint point = matrix.transformVector point + matrix.wAxis.truncate := by
  obtain ⟨⟨_, _, _, _⟩, ⟨_, _, _, _⟩, ⟨_, _, _, _⟩, ⟨_, _, _, _⟩⟩ := matrix
  simp only [transformPoint, transformVector, Vec4.scale_mk, Vec4.add_mk, Vec4.truncate]
  ext <;> simp only [Vec3.add_x, Vec3.add_y, Vec3.add_z] <;> ring

theorem transformVector_zero (matrix : Mat4 ℝ) : matrix.transformVector .zero = .zero := by
  obtain ⟨⟨_, _, _, _⟩, ⟨_, _, _, _⟩, ⟨_, _, _, _⟩, ⟨_, _, _, _⟩⟩ := matrix
  simp [transformVector, Vec3.zero, Vec4.truncate]

theorem transformVector_add_mul (matrix : Mat4 ℝ) (first second : Vec3 ℝ) (factor : ℝ) :
    matrix.transformVector (first + second * factor) =
      matrix.transformVector first + matrix.transformVector second * factor := by
  obtain ⟨⟨_, _, _, _⟩, ⟨_, _, _, _⟩, ⟨_, _, _, _⟩, ⟨_, _, _, _⟩⟩ := matrix
  simp only [transformVector, Vec4.scale_mk, Vec4.add_mk, Vec4.truncate]
  ext <;> simp only [Vec3.add_x, Vec3.add_y, Vec3.add_z, Vec3.mul_x, Vec3.mul_y, Vec3.mul_z] <;>
    ring

theorem transformPoint_add_mul (matrix : Mat4 ℝ) (point direction : Vec3 ℝ) (factor : ℝ) :
    matrix.transformPoint (point + direction * factor) =
      matrix.transformPoint point + matrix.transformVector direction * factor := by
  rw [transformPoint_eq, transformPoint_eq, transformVector_add_mul]
  ext <;> simp only [Vec3.add_x, Vec3.add_y, Vec3.add_z] <;> ring

theorem inverse_transformVector {matrix : Mat4 ℝ} (affine : matrix.Affine)
    (direction : Vec3 ℝ) :
    matrix.inverse.transformVector direction =
      matrix.cofactors direction * (1 / matrix.volume) := by
  obtain ⟨⟨_, _, _, _⟩, ⟨_, _, _, _⟩, ⟨_, _, _, _⟩, ⟨_, _, _, _⟩⟩ := matrix
  obtain ⟨rfl, rfl, rfl, rfl⟩ := affine
  simp only [inverse, transformVector, cofactors, volume, Vec4.dot, Vec3.dot, Vec3.cross,
    Vec4.truncate, Vec4.add_mk, Vec4.sub_mk, Vec4.mul_mk, Vec4.scale_mk]
  ext <;> simp only [Vec3.mul_x, Vec3.mul_y, Vec3.mul_z] <;> ring

theorem inverse_transformPoint {matrix : Mat4 ℝ} (affine : matrix.Affine) (point : Vec3 ℝ) :
    matrix.inverse.transformPoint point =
      matrix.inverse.transformVector (point - matrix.wAxis.truncate) := by
  obtain ⟨⟨_, _, _, _⟩, ⟨_, _, _, _⟩, ⟨_, _, _, _⟩, ⟨_, _, _, _⟩⟩ := matrix
  obtain ⟨rfl, rfl, rfl, rfl⟩ := affine
  simp only [inverse, transformVector, transformPoint, Vec4.dot, Vec4.truncate, Vec4.add_mk,
    Vec4.sub_mk, Vec4.mul_mk, Vec4.scale_mk]
  ext <;> simp only [Vec3.sub_x, Vec3.sub_y, Vec3.sub_z] <;> ring

/-- Cramer's rule. -/
theorem transformVector_cofactors {matrix : Mat4 ℝ} {factor : ℝ}
    (reciprocal : factor * matrix.volume = 1) (direction : Vec3 ℝ) :
    matrix.transformVector (matrix.cofactors direction * factor) = direction := by
  obtain ⟨⟨_, _, _, _⟩, ⟨_, _, _, _⟩, ⟨_, _, _, _⟩, ⟨_, _, _, _⟩⟩ := matrix
  simp only [transformVector, cofactors, volume, Vec3.dot, Vec3.cross, Vec4.truncate,
    Vec3.mul_x, Vec3.mul_y, Vec3.mul_z, Vec4.add_mk, Vec4.scale_mk] at reciprocal ⊢
  ext
  · linear_combination direction.x * reciprocal
  · linear_combination direction.y * reciprocal
  · linear_combination direction.z * reciprocal

theorem cofactors_transformVector {matrix : Mat4 ℝ} {factor : ℝ}
    (reciprocal : factor * matrix.volume = 1) (vector : Vec3 ℝ) :
    matrix.cofactors (matrix.transformVector vector) * factor = vector := by
  obtain ⟨⟨_, _, _, _⟩, ⟨_, _, _, _⟩, ⟨_, _, _, _⟩, ⟨_, _, _, _⟩⟩ := matrix
  simp only [transformVector, cofactors, volume, Vec3.dot, Vec3.cross, Vec4.truncate,
    Vec4.add_mk, Vec4.scale_mk] at reciprocal ⊢
  ext <;> simp only [Vec3.mul_x, Vec3.mul_y, Vec3.mul_z]
  · linear_combination vector.x * reciprocal
  · linear_combination vector.y * reciprocal
  · linear_combination vector.z * reciprocal

/-- A placement that is not singular. -/
structure Regular (matrix : Mat4 ℝ) : Prop where
  affine : matrix.Affine
  volume : matrix.volume ≠ 0

namespace Regular

variable {matrix : Mat4 ℝ} (regular : matrix.Regular)

include regular

theorem transformVector_inverse (direction : Vec3 ℝ) :
    matrix.transformVector (matrix.inverse.transformVector direction) = direction := by
  rw [inverse_transformVector regular.affine]
  exact transformVector_cofactors (one_div_mul_cancel regular.volume) direction

theorem inverse_transformVector_eq (vector : Vec3 ℝ) :
    matrix.inverse.transformVector (matrix.transformVector vector) = vector := by
  rw [inverse_transformVector regular.affine]
  exact cofactors_transformVector (one_div_mul_cancel regular.volume) vector

theorem transformPoint_inverse (point : Vec3 ℝ) :
    matrix.transformPoint (matrix.inverse.transformPoint point) = point := by
  rw [inverse_transformPoint regular.affine, transformPoint_eq, regular.transformVector_inverse]
  ext <;> simp

theorem inverse_transformPoint_eq (point : Vec3 ℝ) :
    matrix.inverse.transformPoint (matrix.transformPoint point) = point := by
  have shifted : matrix.transformPoint point - matrix.wAxis.truncate =
      matrix.transformVector point := by
    rw [transformPoint_eq]
    ext <;> simp
  rw [inverse_transformPoint regular.affine, shifted, regular.inverse_transformVector_eq]

theorem transformPoint_injective : Function.Injective matrix.transformPoint :=
  Function.LeftInverse.injective regular.inverse_transformPoint_eq

end Regular

end Mat4

/-! ## Rays -/

namespace Ray

/-- The ray in the coordinates of a body is the one that its placement maps to the ray. -/
theorem toLocal?_eq_some_iff {ray localRay : Ray ℝ} {placement : Mat4 ℝ}
    (regular : placement.Regular) :
    ray.toLocal? placement = some localRay ↔
      placement.transformPoint localRay.origin = ray.origin ∧
        placement.transformVector localRay.direction = ray.direction := by
  have nonzero : (placement.determinant == 0) = false := by
    rw [Mat4.determinant_eq_volume regular.affine]
    exact beq_false_of_ne regular.volume
  have taken : ray.toLocal? placement = some ⟨placement.inverse.transformPoint ray.origin,
      placement.inverse.transformVector ray.direction⟩ := by
    unfold toLocal?
    rw [nonzero, if_neg Bool.false_ne_true]
    rfl
  rw [taken, Option.some.injEq]
  constructor
  · rintro rfl
    exact ⟨regular.transformPoint_inverse _, regular.transformVector_inverse _⟩
  · rintro ⟨origin, direction⟩
    rw [← origin, ← direction, regular.inverse_transformPoint_eq,
      regular.inverse_transformVector_eq]

theorem exists_toLocal? (ray : Ray ℝ) {placement : Mat4 ℝ} (regular : placement.Regular) :
    ∃ localRay, ray.toLocal? placement = some localRay :=
  ⟨⟨_, _⟩, (toLocal?_eq_some_iff regular).mpr
    ⟨regular.transformPoint_inverse ray.origin, regular.transformVector_inverse ray.direction⟩⟩

theorem transformPoint_point {ray localRay : Ray ℝ} {placement : Mat4 ℝ}
    (regular : placement.Regular) (taken : ray.toLocal? placement = some localRay)
    (parameter : ℝ) :
    placement.transformPoint (localRay.point parameter) = ray.point parameter := by
  obtain ⟨origin, direction⟩ := (toLocal?_eq_some_iff regular).mp taken
  exact (placement.transformPoint_add_mul _ _ _).trans (by rw [origin, direction]; rfl)

/-- A ray is in a placed body when the ray in the body's coordinates is in the body. -/
theorem point_mem_image_iff {ray localRay : Ray ℝ} {placement : Mat4 ℝ}
    (regular : placement.Regular) (taken : ray.toLocal? placement = some localRay)
    {body : Set (Vec3 ℝ)} (parameter : ℝ) :
    ray.point parameter ∈ placement.transformPoint '' body ↔ localRay.point parameter ∈ body := by
  rw [← transformPoint_point regular taken, regular.transformPoint_injective.mem_set_image]

end Ray

end Grove
