import Grove.Proofs.Linear.Rotation

/-!
# Quaternions in exact arithmetic

The image of a vector under a product is its image under one factor after the other, and lengths
multiply. So products of unit quaternions turn space, and nothing is left to normalize.
-/

set_option autoImplicit false

namespace Grove

namespace Quat

attribute [ext] Quat

@[simp] theorem mul_mk (x y z w x' y' z' w' : ℝ) :
    (⟨x, y, z, w⟩ : Quat ℝ) * ⟨x', y', z', w'⟩ =
      ⟨(w * x' + x * w') + (y * z' - z * y'), (w * y' - x * z') + (y * w' + z * x'),
        (w * z' + x * y') + (z * w' - y * x'), (w * w' - x * x') + (-(y * y') - z * z')⟩ :=
  rfl

@[simp] theorem rotate_mk (x y z w : ℝ) (vector : Vec3 ℝ) :
    (⟨x, y, z, w⟩ : Quat ℝ).rotate vector =
      ⟨vector.x * (w * w - (x * x + y * y + z * z)) +
          x * ((vector.x * x + vector.y * y + vector.z * z) * 2) +
          (y * vector.z - vector.y * z) * (w * 2),
        vector.y * (w * w - (x * x + y * y + z * z)) +
          y * ((vector.x * x + vector.y * y + vector.z * z) * 2) +
          (z * vector.x - vector.z * x) * (w * 2),
        vector.z * (w * w - (x * x + y * y + z * z)) +
          z * ((vector.x * x + vector.y * y + vector.z * z) * 2) +
          (x * vector.y - vector.x * y) * (w * 2)⟩ := by
  have two : (2.0 : ℝ) = 2 := by norm_num
  unfold rotate
  rw [two]
  rfl

theorem lengthSquared_mul (left right : Quat ℝ) :
    (left * right).lengthSquared = left.lengthSquared * right.lengthSquared := by
  obtain ⟨_, _, _, _⟩ := left
  obtain ⟨_, _, _, _⟩ := right
  simp only [mul_mk, lengthSquared]
  ring

theorem rotate_mul (left right : Quat ℝ) (vector : Vec3 ℝ) :
    (left * right).rotate vector = left.rotate (right.rotate vector) := by
  obtain ⟨_, _, _, _⟩ := left
  obtain ⟨_, _, _, _⟩ := right
  ext <;> simp only [mul_mk, rotate_mk] <;> ring

theorem rotate_dot (turn : Quat ℝ) (left right : Vec3 ℝ) :
    (turn.rotate left).dot (turn.rotate right) = turn.lengthSquared ^ 2 * left.dot right := by
  obtain ⟨_, _, _, _⟩ := turn
  simp only [rotate_mk, lengthSquared, Vec3.dot]
  ring

theorem normalize_of_unit {turn : Quat ℝ} (unit : turn.lengthSquared = 1) :
    turn.normalize = turn := by
  have length : Scalar.sqrt turn.lengthSquared = 1 := by
    rw [unit]
    exact Real.sqrt_one
  unfold normalize
  dsimp only
  rw [length]
  ext <;> exact div_one _

theorem transformVector_rotation {turn : Quat ℝ} (unit : turn.lengthSquared = 1) (vector : Vec3 ℝ) :
    (Mat4.rotation turn).transformVector vector = turn.rotate vector := by
  obtain ⟨x, y, z, w⟩ := turn
  simp only [lengthSquared] at unit
  ext <;>
    simp only [Mat4.rotation, Mat4.transformVector, Vec4.truncate, Vec4.add_mk, Vec4.scale_mk,
      rotate_mk]
  · linear_combination -vector.x * unit
  · linear_combination -vector.y * unit
  · linear_combination -vector.z * unit

theorem lengthSquared_rotate_up {turn : Quat ℝ} (unit : turn.lengthSquared = 1) :
    (turn.rotate .up).lengthSquared = 1 := by
  have up : (Vec3.up : Vec3 ℝ).dot .up = 1 := by simp [Vec3.up, Vec3.dot]
  rw [Vec3.lengthSquared, rotate_dot, unit, up]
  norm_num

/-- A twist about the heading does not matter to the angle of the turn that follows it. -/
theorem rotate_up_dot_turned {turn : Quat ℝ} (unit : turn.lengthSquared = 1)
    {twistSine twistCosine : ℝ} (circle : twistSine ^ 2 + twistCosine ^ 2 = 1) (sine cosine : ℝ) :
    ((turn * ⟨0, twistSine, 0, twistCosine⟩ * ⟨0, 0, sine, cosine⟩).rotate .up).dot
      (turn.rotate .up) = cosine ^ 2 - sine ^ 2 := by
  rw [rotate_mul, rotate_mul, rotate_dot, unit]
  simp only [rotate_mk, Vec3.up, Vec3.dot]
  linear_combination (cosine ^ 2 - sine ^ 2) * circle

end Quat

end Grove
