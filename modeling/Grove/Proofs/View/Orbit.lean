import Mathlib.Analysis.Real.Pi.Bounds
import Grove.Proofs.Linear.Inverse
import Grove.Proofs.Linear.Length
import Grove.Proofs.View.Projection

/-!
# The camera on its orbit

Whatever drags and scrolls move the camera, it stays above the horizon, short of the zenith and at
a limited distance. There its view never degenerates, and the target, which it looks at, is seen in
the middle of every viewport. All of this is in exact arithmetic.
-/

set_option autoImplicit false

namespace Grove

/-- One thing that moves the camera. -/
inductive CameraStep (α : Type) where
  /-- A drag in pixels. -/
  | orbit (drag : Vec2 α)
  | zoom (scroll : α)

namespace Exact

private theorem clamp_mem {low high : ℝ} (ordered : low ≤ high) (value : ℝ) :
    low ≤ Scalar.clamp value low high ∧ Scalar.clamp value low high ≤ high := by
  rw [Exact.clamp_eq ordered]
  exact ⟨le_max_left .., max_le ordered (min_le_right ..)⟩

end Exact

/-! ## Views -/

namespace Mat4

private theorem apply_mul (left right : Mat4 ℝ) (vector : Vec4 ℝ) :
    (left * right).apply vector = left.apply (right.apply vector) := by
  change left.apply right.xAxis * vector.x + left.apply right.yAxis * vector.y +
    left.apply right.zAxis * vector.z + left.apply right.wAxis * vector.w = _
  simp only [← apply_scale, ← apply_add]
  rfl

/-- From the eye the target is seen straight ahead. -/
theorem lookAt_apply_target {eye target : Vec3 ℝ} (upward : Vec3 ℝ)
    (apart : 0 < (target - eye).lengthSquared) :
    (lookAt eye target upward).apply (target.extend 1) = ⟨0, 0, -(target - eye).length, 1⟩ := by
  obtain ⟨unit, -, same⟩ := Vec3.normalize_of_pos apart
  rw [lookAt]
  generalize (target - eye).normalize = forward at unit same ⊢
  generalize (target - eye).length = distance at same ⊢
  have x : target.x = forward.x * distance + eye.x :=
    sub_eq_iff_eq_add.mp (congrArg Vec3.x same)
  have y : target.y = forward.y * distance + eye.y :=
    sub_eq_iff_eq_add.mp (congrArg Vec3.y same)
  have z : target.z = forward.z * distance + eye.z :=
    sub_eq_iff_eq_add.mp (congrArg Vec3.z same)
  rw [Vec3.lengthSquared_eq] at unit
  simp only [apply, Vec3.extend, Vec3.dot_eq, Vec3.cross, Vec3.normalize, Vec3.mul_x, Vec3.mul_y,
    Vec3.mul_z, Vec4.scale_mk, Vec4.add_mk, x, y, z]
  -- The side and the top of the view are at right angles to its direction, however long they are.
  ext <;> simp only
  · ring
  · ring
  · linear_combination -distance * unit
  · ring

/-- A view turns and moves the world, if its direction is not the vertical. -/
theorem determinant_lookAt {eye target upward : Vec3 ℝ}
    (apart : 0 < (target - eye).lengthSquared)
    (level : 0 < ((target - eye).normalize.cross upward).lengthSquared) :
    (lookAt eye target upward).determinant = 1 := by
  obtain ⟨forwardUnit, -, -⟩ := Vec3.normalize_of_pos apart
  obtain ⟨sideUnit, -, -⟩ := Vec3.normalize_of_pos level
  have across : ((target - eye).normalize.cross upward).normalize.dot
      (target - eye).normalize = 0 := by
    generalize (target - eye).normalize = forward
    simp only [Vec3.dot_eq, Vec3.cross, Vec3.normalize, Vec3.mul_x, Vec3.mul_y, Vec3.mul_z]
    ring
  rw [determinant_eq_volume ⟨rfl, rfl, rfl, rfl⟩, lookAt]
  generalize ((target - eye).normalize.cross upward).normalize = side at sideUnit across ⊢
  generalize (target - eye).normalize = forward at forwardUnit across ⊢
  rw [Vec3.lengthSquared_eq] at forwardUnit sideUnit
  rw [Vec3.dot_eq] at across
  -- The volume is the squared length of the cross product of side and direction.
  calc
    _ = (side.x * side.x + side.y * side.y + side.z * side.z) *
          (forward.x * forward.x + forward.y * forward.y + forward.z * forward.z) -
        (side.x * forward.x + side.y * forward.y + side.z * forward.z) ^ 2 := by
      simp only [volume, Vec3.dot_eq, Vec3.cross, Vec4.truncate]
      ring
    _ = 1 := by
      rw [sideUnit, forwardUnit, across]
      norm_num

private theorem determinant_perspective_mul (fovY aspect near far : ℝ) (matrix : Mat4 ℝ) :
    (perspective fovY aspect near far * matrix).determinant =
      Real.cos (0.5 * fovY) / Real.sin (0.5 * fovY) / aspect *
        (Real.cos (0.5 * fovY) / Real.sin (0.5 * fovY)) * (far / (near - far)) * near *
          matrix.determinant := by
  obtain ⟨⟨_, _, _, _⟩, ⟨_, _, _, _⟩, ⟨_, _, _, _⟩, ⟨_, _, _, _⟩⟩ := matrix
  change (Mat4.mk (apply _ _) (apply _ _) (apply _ _) (apply _ _)).determinant = _
  simp only [perspective, apply, determinant, Vec4.dot, Vec4.scale_mk, Vec4.add_mk]
  change _ = Scalar.cos _ / Scalar.sin _ / aspect * (Scalar.cos _ / Scalar.sin _) * _ * near * _
  ring

end Mat4

namespace Camera

section

variable {α : Type} [Scalar α]

def step (camera : Camera α) : CameraStep α → Camera α
  | .orbit drag => camera.orbit drag
  | .zoom scroll => camera.zoom scroll

def run (camera : Camera α) (steps : List (CameraStep α)) : Camera α :=
  steps.foldl step camera

end

/-- What no drag and no scroll takes the camera out of. -/
structure Bounded (camera : Camera ℝ) : Prop where
  fovY : camera.fovY = Scalar.toRadians 55.0
  minPitch : 0.05 ≤ camera.pitch
  maxPitch : camera.pitch ≤ 1.5
  minDistance : 3 ≤ camera.distance
  maxDistance : camera.distance ≤ 400

private theorem bounded_standard : (standard : Camera ℝ).Bounded := by
  constructor <;> norm_num [standard]

theorem Bounded.step {camera : Camera ℝ} (bounded : camera.Bounded) (step : CameraStep ℝ) :
    (camera.step step).Bounded := by
  cases step with
  | orbit drag =>
      have ordered : (Camera.minPitch : ℝ) ≤ Camera.maxPitch := by
        norm_num [Camera.minPitch, Camera.maxPitch]
      obtain ⟨least, most⟩ := Exact.clamp_mem ordered (camera.pitch + drag.y * 0.005)
      exact ⟨bounded.fovY, least, most, bounded.minDistance, bounded.maxDistance⟩
  | zoom scroll =>
      have three : (Camera.minDistance : ℝ) = 3 := by norm_num [Camera.minDistance]
      have hundreds : (Camera.maxDistance : ℝ) = 400 := by norm_num [Camera.maxDistance]
      have ordered : (Camera.minDistance : ℝ) ≤ Camera.maxDistance := by
        rw [three, hundreds]
        norm_num
      obtain ⟨least, most⟩ := Exact.clamp_mem ordered
        (camera.distance * Scalar.clamp (1 - scroll * 0.001) 0.5 2.0)
      exact ⟨bounded.fovY, bounded.minPitch, bounded.maxPitch, three.symm.trans_le least,
        most.trans_eq hundreds⟩

theorem Bounded.run {camera : Camera ℝ} (bounded : camera.Bounded) (steps : List (CameraStep ℝ)) :
    (camera.run steps).Bounded := by
  induction steps generalizing camera with
  | nil => exact bounded
  | cons step steps induction => exact induction (bounded.step step)

/-! ## The eye -/

/-- The direction from the target to the eye. -/
noncomputable def outward (camera : Camera ℝ) : Vec3 ℝ :=
  ⟨Real.sin camera.yaw * Real.cos camera.pitch, Real.sin camera.pitch,
    Real.cos camera.yaw * Real.cos camera.pitch⟩

private theorem eye_eq (camera : Camera ℝ) :
    camera.eye = camera.target + camera.outward * camera.distance :=
  rfl

private theorem lengthSquared_outward (camera : Camera ℝ) : camera.outward.lengthSquared = 1 := by
  have yaw := Real.sin_sq_add_cos_sq camera.yaw
  have pitch := Real.sin_sq_add_cos_sq camera.pitch
  simp only [Vec3.lengthSquared_eq, outward]
  linear_combination Real.cos camera.pitch ^ 2 * yaw + pitch

private theorem target_sub_eye (camera : Camera ℝ) :
    camera.target - camera.eye = camera.outward * -camera.distance := by
  rw [eye_eq]
  ext <;> simp

private theorem lengthSquared_target_sub_eye (camera : Camera ℝ) :
    (camera.target - camera.eye).lengthSquared = camera.distance ^ 2 := by
  have unit := camera.lengthSquared_outward
  rw [target_sub_eye]
  rw [Vec3.lengthSquared_eq] at unit ⊢
  simp only [Vec3.mul_x, Vec3.mul_y, Vec3.mul_z]
  linear_combination camera.distance ^ 2 * unit

variable {camera : Camera ℝ} (bounded : camera.Bounded)

include bounded

theorem Bounded.distance_pos : 0 < camera.distance :=
  lt_of_lt_of_le (by norm_num) bounded.minDistance

theorem Bounded.pitch_acute : 0 < camera.pitch ∧ camera.pitch < Real.pi / 2 := by
  have least := bounded.minPitch
  have most := bounded.maxPitch
  have pi := Real.pi_gt_three
  norm_num at least most
  constructor <;> linarith

theorem Bounded.sin_pitch_pos : 0 < Real.sin camera.pitch := by
  obtain ⟨positive, acute⟩ := bounded.pitch_acute
  exact Real.sin_pos_of_pos_of_lt_pi positive (acute.trans (half_lt_self Real.pi_pos))

theorem Bounded.cos_pitch_pos : 0 < Real.cos camera.pitch := by
  obtain ⟨positive, acute⟩ := bounded.pitch_acute
  exact Real.cos_pos_of_mem_Ioo ⟨(neg_lt_zero.mpr (half_pos Real.pi_pos)).trans positive, acute⟩

theorem Bounded.length_target_sub_eye : (camera.target - camera.eye).length = camera.distance := by
  change √_ = camera.distance
  rw [lengthSquared_target_sub_eye, Real.sqrt_sq bounded.distance_pos.le]

theorem Bounded.apart : 0 < (camera.target - camera.eye).lengthSquared := by
  rw [lengthSquared_target_sub_eye]
  exact pow_pos bounded.distance_pos 2

theorem Bounded.eye_distance : camera.eye.distance camera.target = camera.distance := by
  have away : camera.eye - camera.target = camera.outward * camera.distance := by
    rw [eye_eq]
    ext <;> simp
  rw [Vec3.distance, away, Vec3.length_mul camera.lengthSquared_outward bounded.distance_pos.le]

theorem Bounded.target_lt_eye : camera.target.y < camera.eye.y := by
  rw [eye_eq]
  exact lt_add_of_pos_right _ (mul_pos bounded.sin_pitch_pos bounded.distance_pos)

/-- The camera never looks straight down, so its side is a direction. -/
theorem Bounded.level :
    0 < ((camera.target - camera.eye).normalize.cross Vec3.up).lengthSquared := by
  have forward : (camera.target - camera.eye).normalize = camera.outward * (-1 : ℝ) := by
    rw [Vec3.normalize, bounded.length_target_sub_eye, target_sub_eye]
    have nonzero := bounded.distance_pos.ne'
    ext <;> simp only [Vec3.mul_x, Vec3.mul_y, Vec3.mul_z] <;> field_simp
  have square : ((camera.target - camera.eye).normalize.cross Vec3.up).lengthSquared =
      Real.cos camera.pitch ^ 2 := by
    have yaw := Real.sin_sq_add_cos_sq camera.yaw
    rw [forward]
    simp only [Vec3.lengthSquared_eq, Vec3.cross, Vec3.up, outward, Vec3.mul_x, Vec3.mul_y,
      Vec3.mul_z]
    linear_combination Real.cos camera.pitch ^ 2 * yaw
  rw [square]
  exact pow_pos bounded.cos_pitch_pos 2

/-! ## The picture -/

theorem Bounded.focal_pos :
    0 < Real.cos (0.5 * camera.fovY) / Real.sin (0.5 * camera.fovY) := by
  have angle : 0.5 * camera.fovY = 11 / 72 * Real.pi := by
    rw [bounded.fovY]
    change (0.5 : ℝ) * (55.0 * (Real.pi / 180.0)) = _
    norm_num
    ring
  have pi := Real.pi_pos
  rw [angle]
  exact div_pos (Real.cos_pos_of_mem_Ioo ⟨by linarith, by linarith⟩)
    (Real.sin_pos_of_pos_of_lt_pi (by linarith) (by linarith))

theorem Bounded.determinant_ne_zero (aspect : ℝ) :
    (camera.projection aspect).determinant ≠ 0 := by
  have focal := bounded.focal_pos.ne'
  have wide : Scalar.max aspect 1e-3 ≠ 0 := by
    rw [Exact.max_eq]
    exact (lt_of_lt_of_le (by norm_num) (le_max_right ..)).ne'
  have deep : (farPlane : ℝ) / (nearPlane - farPlane) * nearPlane ≠ 0 := by
    norm_num [farPlane, nearPlane]
  rw [projection, Mat4.determinant_perspective_mul,
    Mat4.determinant_lookAt bounded.apart bounded.level, mul_one, mul_assoc]
  exact mul_ne_zero (mul_ne_zero (div_ne_zero focal wide) focal) deep

/-- The target is on the axis of the view, as deep as it is far away. -/
theorem Bounded.clip_target (size : Vec2 ℝ) :
    ∃ depth, (camera.view size).clip camera.target = ⟨0, 0, depth, camera.distance⟩ := by
  have ahead := Mat4.lookAt_apply_target .up bounded.apart
  rw [bounded.length_target_sub_eye] at ahead
  have clip : (camera.view size).clip camera.target =
      (Mat4.perspective camera.fovY
        (Scalar.max (if 0 < size.y then size.x / size.y else 1) 1e-3) nearPlane farPlane).apply
          ⟨0, 0, -camera.distance, 1⟩ := by
    rw [← ahead, ← Mat4.apply_mul]
    rfl
  rw [clip]
  refine ⟨farPlane / (nearPlane - farPlane) * (nearPlane - camera.distance), ?_⟩
  simp only [Mat4.perspective, Mat4.apply, Vec4.scale_mk, Vec4.add_mk]
  ext <;> simp only <;> ring

theorem Bounded.project?_target (size : Vec2 ℝ) :
    (camera.view size).project? camera.target = some ⟨size.x / 2, size.y / 2⟩ := by
  obtain ⟨depth, clip⟩ := bounded.clip_target size
  have before : ¬ camera.distance ≤ 1e-6 :=
    not_le.mpr (lt_of_lt_of_le (by norm_num) bounded.minDistance)
  have viewport : (camera.view size).viewport = size := rfl
  rw [View.project?_eq, clip]
  dsimp only
  rw [if_neg before, viewport, zero_div]
  congr 2 <;> ring

omit bounded

/-- The camera looks down on its target, from the distance that it is to have, and sees it in the
middle. -/
structure Framed (camera : Camera ℝ) : Prop where
  pitch : 0.05 ≤ camera.pitch ∧ camera.pitch ≤ 1.5
  distance : 3 ≤ camera.distance ∧ camera.distance ≤ 400
  eye_distance : camera.eye.distance camera.target = camera.distance
  above : camera.target.y < camera.eye.y
  /-- No two points of the world go to the same point of clip space. -/
  regular : ∀ size, (camera.view size).projection.determinant ≠ 0
  centered : ∀ size : Vec2 ℝ,
    (camera.view size).project? camera.target = some ⟨size.x / 2, size.y / 2⟩

/-- Wherever drags and scrolls move the camera, it is above its target, at a distance within the
limits, and has it in the middle of every viewport. -/
theorem framed_of_run (steps : List (CameraStep ℝ)) : (standard.run steps).Framed := by
  have bounded := bounded_standard.run steps
  exact ⟨⟨bounded.minPitch, bounded.maxPitch⟩, ⟨bounded.minDistance, bounded.maxDistance⟩,
    bounded.eye_distance, bounded.target_lt_eye, fun _ => bounded.determinant_ne_zero _,
    bounded.project?_target⟩

end Camera

end Grove
