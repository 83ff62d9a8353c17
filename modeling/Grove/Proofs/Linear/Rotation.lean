import Mathlib.Tactic.NormNum
import Grove.Geometry.Placement
import Grove.Proofs.Linear.Matrix

/-!
# Rotations in exact arithmetic

A quaternion of length one turns space without changing lengths and angles. The shortest rotation
from one direction to another has length one, also where the directions are opposite or so close
that nothing is turned.
-/

set_option autoImplicit false

namespace Grove

namespace Mat4

/-- Rotations keep the products of vectors, hence lengths and angles. -/
theorem rotation_dot {turn : Quat ℝ} (unit : turn.lengthSquared = 1) (left right : Vec3 ℝ) :
    ((rotation turn).transformVector left).dot ((rotation turn).transformVector right) =
      left.dot right := by
  obtain ⟨x, y, z, w⟩ := turn
  simp only [Quat.lengthSquared] at unit
  simp only [rotation, transformVector, Vec4.truncate, Vec4.add_mk, Vec4.scale_mk, Vec3.dot]
  grind

theorem rotation_volume {turn : Quat ℝ} (unit : turn.lengthSquared = 1) :
    (rotation turn).volume = 1 := by
  obtain ⟨x, y, z, w⟩ := turn
  simp only [Quat.lengthSquared] at unit
  simp only [rotation, volume, Vec4.truncate, Vec3.dot, Vec3.cross]
  grind

theorem place_transformVector (scale : Vec3 ℝ) (turn : Quat ℝ) (offset vector : Vec3 ℝ) :
    (place scale turn offset).transformVector vector =
      (rotation turn).transformVector
        ⟨scale.x * vector.x, scale.y * vector.y, scale.z * vector.z⟩ := by
  simp only [place, rotation, transformVector, Vec4.truncate, Vec4.add_mk, Vec4.scale_mk]
  ext <;> simp only <;> ring

theorem place_volume (scale : Vec3 ℝ) (turn : Quat ℝ) (offset : Vec3 ℝ) :
    (place scale turn offset).volume = scale.x * scale.y * scale.z * (rotation turn).volume := by
  simp only [place, rotation, volume, Vec4.truncate, Vec4.scale_mk, Vec3.dot, Vec3.cross]
  ring

theorem place_affine (scale : Vec3 ℝ) (turn : Quat ℝ) (offset : Vec3 ℝ) :
    (place scale turn offset).Affine := by
  constructor <;> simp [place, rotation, Vec3.extend]

theorem Regular.place {scale : Vec3 ℝ} {turn : Quat ℝ} (unit : turn.lengthSquared = 1)
    (x : scale.x ≠ 0) (y : scale.y ≠ 0) (z : scale.z ≠ 0) (offset : Vec3 ℝ) :
    (place scale turn offset).Regular where
  affine := place_affine scale turn offset
  volume := by
    rw [place_volume, rotation_volume unit, mul_one]
    exact mul_ne_zero (mul_ne_zero x y) z

end Mat4

/-! ## Shortest rotations -/

namespace Quat

theorem lengthSquared_identity : (identity : Quat ℝ).lengthSquared = 1 := by
  simp [identity, lengthSquared]

theorem lengthSquared_ofAxisAngle {axis : Vec3 ℝ} (unit : axis.lengthSquared = 1) (angle : ℝ) :
    (ofAxisAngle axis angle).lengthSquared = 1 := by
  rw [Vec3.lengthSquared_eq] at unit
  have circle := Real.sin_sq_add_cos_sq (angle * 0.5)
  change axis.x * Real.sin (angle * 0.5) * (axis.x * Real.sin (angle * 0.5)) +
    axis.z * Real.sin (angle * 0.5) * (axis.z * Real.sin (angle * 0.5)) +
    (axis.y * Real.sin (angle * 0.5) * (axis.y * Real.sin (angle * 0.5)) +
      Real.cos (angle * 0.5) * Real.cos (angle * 0.5)) = 1
  linear_combination Real.sin (angle * 0.5) ^ 2 * unit + circle

theorem lengthSquared_normalize {rotation : Quat ℝ} (nonzero : 0 < rotation.lengthSquared) :
    rotation.normalize.lengthSquared = 1 := by
  have positive : √rotation.lengthSquared ≠ 0 := (Real.sqrt_pos.mpr nonzero).ne'
  have root : √rotation.lengthSquared ^ 2 = rotation.lengthSquared := Real.sq_sqrt nonzero.le
  change rotation.x / √rotation.lengthSquared * (rotation.x / √rotation.lengthSquared) +
    rotation.z / √rotation.lengthSquared * (rotation.z / √rotation.lengthSquared) +
    (rotation.y / √rotation.lengthSquared * (rotation.y / √rotation.lengthSquared) +
      rotation.w / √rotation.lengthSquared * (rotation.w / √rotation.lengthSquared)) = 1
  field_simp
  rw [root, lengthSquared]
  ring

theorem anyOrthonormal_up : anyOrthonormal (Vec3.up : Vec3 ℝ) = ⟨0, 0, -1⟩ := by
  simp [anyOrthonormal, Vec3.up]

theorem lengthSquared_rotationArc_up (direction : Vec3 ℝ) :
    (rotationArc .up direction).lengthSquared = 1 := by
  unfold rotationArc
  dsimp only
  split
  · exact lengthSquared_identity
  · split
    · refine lengthSquared_ofAxisAngle ?_ _
      rw [anyOrthonormal_up, Vec3.lengthSquared_eq]
      norm_num
    · rename_i near far
      refine lengthSquared_normalize ?_
      have positive : 0 < 1 + Vec3.up.dot direction := by
        norm_num [Scalar.epsilon] at far
        linarith
      have first := mul_self_nonneg (Vec3.up.cross direction).x
      have second := mul_self_nonneg (Vec3.up.cross direction).y
      have third := mul_self_nonneg (Vec3.up.cross direction).z
      have last := mul_self_pos.mpr positive.ne'
      simp only [lengthSquared]
      linarith

end Quat

end Grove
