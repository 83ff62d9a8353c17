import Grove.Proofs.Geometry.Thin
import Grove.Proofs.Linear.Length
import Grove.Proofs.Linear.Quaternion

/-!
# The ends of a segment

In exact arithmetic the placement of a branch takes the axis of the cylinder to the segment that it
was made for, if the segment is long enough and the rotation takes the upward direction to its own.
Of the shortest rotation this is true but for directions that are almost vertical: those it does not
turn at all, or by exactly half a turn.
-/

set_option autoImplicit false

namespace Grove

namespace Placement

section Arc

variable {α : Type} [Scalar α]

/-- The cylinder whose axis runs from `bottom` to `top`, where `arc` gives the rotation from the
upward direction to another one. -/
def branchBy (arc : Vec3 α → Quat α) (bottom top : Vec3 α) (radius : α) : Mat4 α :=
  .place ⟨radius, drawnLength bottom top, radius⟩ (arc (drawnDirection bottom top))
    ((bottom + top) * (0.5 : α))

theorem branch_eq_branchBy (bottom top : Vec3 α) (radius : α) :
    branch bottom top radius = branchBy (Quat.rotationArc .up) bottom top radius :=
  branch_eq bottom top radius

/-- The shortest rotation between directions that are neither close nor opposite. -/
theorem rotationArc_of_apart {source target : Vec3 α}
    (apart : ¬1 - 2.0 * Scalar.epsilon < source.dot target)
    (across : ¬source.dot target < -(1 - 2.0 * Scalar.epsilon)) :
    Quat.rotationArc source target = (Quat.mk (source.cross target).x (source.cross target).y
      (source.cross target).z (1 + source.dot target)).normalize := by
  unfold Quat.rotationArc
  dsimp only
  rw [if_neg apart, if_neg across]

end Arc

/-- A unit quaternion that takes the upward direction to another one. -/
structure TakesUp (turn : Quat ℝ) (direction : Vec3 ℝ) : Prop where
  unit : turn.lengthSquared = 1
  taken : turn.rotate .up = direction

/-- The shortest rotation takes the upward direction to all that it does not take for vertical. -/
theorem takesUp_rotationArc {direction : Vec3 ℝ} (unit : direction.lengthSquared = 1)
    (slanted : |direction.y| ≤ 1 - 2.0 * Scalar.epsilon) :
    TakesUp (Quat.rotationArc .up direction) direction := by
  obtain ⟨below, above⟩ := abs_le.mp slanted
  have cosine : Vec3.up.dot direction = direction.y := by simp [Vec3.up, Vec3.dot]
  have positive : 0 < 1 + direction.y := by
    norm_num [Scalar.epsilon] at below
    linarith
  have arc : Quat.rotationArc .up direction =
      (⟨direction.z, 0, -direction.x, 1 + direction.y⟩ : Quat ℝ).normalize := by
    rw [← cosine] at below above
    rw [rotationArc_of_apart (not_lt.mpr above) (not_lt.mpr below), cosine]
    simp [Vec3.cross, Vec3.up]
  refine ⟨Quat.lengthSquared_rotationArc_up direction, ?_⟩
  rw [Vec3.lengthSquared_eq] at unit
  have square : (⟨direction.z, 0, -direction.x, 1 + direction.y⟩ : Quat ℝ).lengthSquared =
      2 * (1 + direction.y) := by
    simp only [Quat.lengthSquared]
    linear_combination unit
  have root : √(2 * (1 + direction.y)) ^ 2 = 2 * (1 + direction.y) := Real.sq_sqrt (by linarith)
  have nonzero : √(2 * (1 + direction.y)) ≠ 0 := (Real.sqrt_pos.mpr (by linarith)).ne'
  rw [arc]
  change Quat.rotate ⟨direction.z / √_, 0 / √_, -direction.x / √_, (1 + direction.y) / √_⟩ _ = _
  rw [square]
  generalize √(2 * (1 + direction.y)) = length at root nonzero
  ext <;> simp only [Quat.rotate_mk, Vec3.up] <;> field_simp
  · linear_combination -direction.x * root
  · linear_combination -unit - direction.y * root
  · linear_combination -direction.z * root

section Ends

variable {direction : Vec3 ℝ} {length : ℝ}

theorem offset_eq (bottom offset : Vec3 ℝ) : bottom + offset - bottom = offset := by
  ext <;> simp

/-- A segment that is not too short is drawn with its own length and direction. -/
theorem drawn_of_long (bottom : Vec3 ℝ) (unit : direction.lengthSquared = 1)
    (long : shortestSegment ≤ length) :
    drawnLength bottom (bottom + direction * length) = length ∧
      drawnDirection bottom (bottom + direction * length) = direction := by
  have positive : 0 < length := lt_of_lt_of_le (by norm_num [shortestSegment]) long
  have measured := Vec3.length_mul unit positive.le
  have notShort : isShort bottom (bottom + direction * length) = false := by
    unfold isShort
    rw [offset_eq, measured]
    exact decide_eq_false (not_lt.mpr long)
  unfold drawnLength drawnDirection
  rw [notShort, if_neg Bool.false_ne_true, if_neg Bool.false_ne_true, offset_eq, measured]
  refine ⟨rfl, ?_⟩
  ext <;> simp [positive.ne']

/-- The axis of a branch runs from its bottom to its top. -/
theorem branchEnds_branchBy {arc : Vec3 ℝ → Quat ℝ} (takes : TakesUp (arc direction) direction)
    (long : shortestSegment ≤ length) (bottom : Vec3 ℝ) (radius : ℝ) :
    branchEnds (branchBy arc bottom (bottom + direction * length) radius) =
      (bottom, bottom + direction * length) := by
  have unit : direction.lengthSquared = 1 := takes.taken ▸ Quat.lengthSquared_rotate_up takes.unit
  obtain ⟨drawnLong, drawnAlong⟩ := drawn_of_long bottom unit long
  have along : ∀ height : ℝ,
      (branchBy arc bottom (bottom + direction * length) radius).transformPoint ⟨0, height, 0⟩ =
        direction * (length * height) +
          (bottom + (bottom + direction * length)) * (0.5 : ℝ) := by
    intro height
    have scaled : (⟨radius * 0, length * height, radius * 0⟩ : Vec3 ℝ) =
        (Vec3.zero : Vec3 ℝ) + (Vec3.up : Vec3 ℝ) * (length * height) := by
      ext <;> simp [Vec3.zero, Vec3.up]
    unfold branchBy
    rw [drawnLong, drawnAlong, Mat4.transformPoint_eq, Mat4.place_transformVector, scaled,
      Mat4.transformVector_add_mul, Mat4.transformVector_zero,
      Quat.transformVector_rotation takes.unit, takes.taken]
    ext <;> simp [Mat4.place, Vec3.zero, Vec3.extend, Vec4.truncate]
  unfold branchEnds
  rw [along, along]
  have half : (0.5 : ℝ) = 1 / 2 := by norm_num
  rw [half]
  refine Prod.ext ?_ ?_ <;> ext <;>
    simp only [Vec3.add_x, Vec3.add_y, Vec3.add_z, Vec3.mul_x, Vec3.mul_y, Vec3.mul_z] <;> ring

end Ends

end Placement

end Grove
