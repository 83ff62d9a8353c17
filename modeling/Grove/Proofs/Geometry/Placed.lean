import Grove.Proofs.Geometry.Solids
import Grove.Proofs.Linear.Rotation
import Grove.Instance.Category

/-!
# Placed bodies

A branch is the cylinder and a leaf the ball as a matrix places them in the world. In exact
arithmetic none of the placements is singular, so a ray can be followed in the coordinates of the
body, and what it is found to meet there it meets in the world, at the same parameter.

The directions that are too close to the axis of a cylinder, or to going across it, are told in the
coordinates of the body. In the world they depend on the size of the branch: the angle to the axis
is compared to its radius, and the angle to the plane across to its length.
-/

set_option autoImplicit false

namespace Grove

/-- The shape of a kind of instance, before it is placed. -/
def Category.solid : Category → Set (Vec3 ℝ)
  | .branch => unitCylinder
  | .leaf => unitBall

/-- The part of the world that a placed instance takes up. -/
def Category.body (category : Category) (placement : Mat4 ℝ) : Set (Vec3 ℝ) :=
  placement.transformPoint '' category.solid

/-- The placements of branches that are not infinitely thin, and of leaves that are not infinitely
small. -/
inductive Placed : Category → Mat4 ℝ → Prop
  | branch (bottom top : Vec3 ℝ) {radius : ℝ} (thick : 0 < radius) :
      Placed .branch (Placement.branch bottom top radius)
  | leaf (center : Vec3 ℝ) {size : ℝ} (large : 0 < size) :
      Placed .leaf (Placement.leaf center size)

namespace Placement

private theorem branch_eq_place (bottom top : Vec3 ℝ) (radius : ℝ) :
    ∃ length turn offset, 0 < length ∧ turn.lengthSquared = 1 ∧
      branch bottom top radius = .place ⟨radius, length, radius⟩ turn offset := by
  have shortest : (0 : ℝ) < shortestSegment := by norm_num [shortestSegment]
  unfold branch
  by_cases short : (top - bottom).length < shortestSegment
  · simp only [if_pos short]
    exact ⟨shortestSegment, _, _, shortest, Quat.lengthSquared_rotationArc_up .up, rfl⟩
  · simp only [if_neg short]
    exact ⟨(top - bottom).length, _, _, shortest.trans_le (not_lt.mp short),
      Quat.lengthSquared_rotationArc_up _, rfl⟩

/-- A branch that stands upright is not turned. -/
theorem branch_upright (bottom : Vec3 ℝ) (length : ℝ) (long : shortestSegment ≤ length)
    (radius : ℝ) :
    branch bottom ⟨bottom.x, bottom.y + length, bottom.z⟩ radius =
      .place ⟨radius, length, radius⟩ .identity
        ⟨bottom.x, bottom.y + length / 2, bottom.z⟩ := by
  have positive : 0 < length := lt_of_lt_of_le (by norm_num [shortestSegment]) long
  have offset : (⟨bottom.x, bottom.y + length, bottom.z⟩ : Vec3 ℝ) - bottom = ⟨0, length, 0⟩ := by
    ext <;> simp
  have measured : (⟨0, length, 0⟩ : Vec3 ℝ).length = length := by
    change √_ = length
    rw [Vec3.lengthSquared_eq]
    simp [positive.le]
  have direction : (⟨0, length, 0⟩ : Vec3 ℝ) / length = .up := by
    ext <;> simp [Vec3.up, positive.ne']
  have middle : (bottom + ⟨bottom.x, bottom.y + length, bottom.z⟩) * (0.5 : ℝ) =
      ⟨bottom.x, bottom.y + length / 2, bottom.z⟩ := by
    ext <;> simp only [Vec3.add_x, Vec3.add_y, Vec3.add_z, Vec3.mul_x, Vec3.mul_y, Vec3.mul_z] <;>
      ring
  have still : Quat.rotationArc Vec3.up (Vec3.up : Vec3 ℝ) = .identity := by
    refine if_pos ?_
    norm_num [Scalar.epsilon, Vec3.dot_eq, Vec3.up]
  unfold branch
  dsimp only
  rw [offset, measured, if_neg (not_lt.mpr long)]
  dsimp only
  rw [direction, middle, still]

end Placement

theorem Placed.regular {category : Category} {placement : Mat4 ℝ}
    (placed : Placed category placement) : placement.Regular := by
  cases placed with
  | branch bottom top thick =>
      obtain ⟨length, turn, offset, long, unit, same⟩ :=
        Placement.branch_eq_place bottom top _
      rw [same]
      exact .place unit thick.ne' long.ne' thick.ne' offset
  | leaf center large =>
      exact .place Quat.lengthSquared_identity large.ne' large.ne' large.ne' center

theorem Mat4.place_identity_transformPoint (scale offset point : Vec3 ℝ) :
    (Mat4.place scale .identity offset).transformPoint point =
      ⟨scale.x * point.x + offset.x, scale.y * point.y + offset.y,
        scale.z * point.z + offset.z⟩ := by
  simp only [place, rotation, Quat.identity, transformPoint, Vec3.extend, Vec4.scale_mk,
    Vec4.add_mk, Vec4.truncate]
  ext <;> simp only <;> ring

theorem Mat4.place_identity_transformVector (scale offset vector : Vec3 ℝ) :
    (Mat4.place scale .identity offset).transformVector vector =
      ⟨scale.x * vector.x, scale.y * vector.y, scale.z * vector.z⟩ := by
  rw [place_transformVector]
  simp only [rotation, Quat.identity, transformVector, Vec4.scale_mk, Vec4.add_mk, Vec4.truncate]
  ext <;> simp only <;> ring

/-- An upright branch takes up the cylinder of its radius between its bottom and its top. -/
theorem mem_body_upright_iff (bottom : Vec3 ℝ) (length : ℝ) {radius : ℝ}
    (long : Placement.shortestSegment ≤ length) (thick : 0 < radius) (point : Vec3 ℝ) :
    point ∈ Category.branch.body
        (Placement.branch bottom ⟨bottom.x, bottom.y + length, bottom.z⟩ radius) ↔
      (point.x - bottom.x) ^ 2 + (point.z - bottom.z) ^ 2 ≤ radius ^ 2 ∧
        bottom.y ≤ point.y ∧ point.y ≤ bottom.y + length := by
  have positive : 0 < length := lt_of_lt_of_le (by norm_num [Placement.shortestSegment]) long
  rw [Placement.branch_upright bottom length long, Category.body]
  constructor
  · rintro ⟨inner, ⟨inWall, inBand⟩, rfl⟩
    rw [Mat4.place_identity_transformPoint]
    rw [abs_le] at inBand
    dsimp only
    refine ⟨?_, ?_, ?_⟩
    · nlinarith [mul_le_mul_of_nonneg_left inWall (sq_nonneg radius)]
    · nlinarith
    · nlinarith
  · rintro ⟨near, above, below⟩
    refine ⟨⟨(point.x - bottom.x) / radius, (point.y - bottom.y) / length - 1 / 2,
      (point.z - bottom.z) / radius⟩, ⟨?_, ?_⟩, ?_⟩
    · dsimp only
      rw [← sq, ← sq, div_pow, div_pow, ← add_div, div_le_one (pow_pos thick 2)]
      exact near
    · dsimp only
      have least : 0 ≤ (point.y - bottom.y) / length := div_nonneg (by linarith) positive.le
      have most : (point.y - bottom.y) / length ≤ 1 := (div_le_one positive).mpr (by linarith)
      rw [abs_le]
      constructor <;> linarith
    · rw [Mat4.place_identity_transformPoint]
      ext <;> dsimp only <;> field_simp <;> ring

/-! ## Directions and sizes -/

/-- The way from the bottom of a placed branch to its top. -/
noncomputable def Mat4.axis (placement : Mat4 ℝ) : Vec3 ℝ :=
  (Placement.branchEnds placement).2 - (Placement.branchEnds placement).1

/-- The way from the axis of a placed branch to its side. -/
noncomputable def Mat4.spoke (placement : Mat4 ℝ) : Vec3 ℝ :=
  placement.transformVector ⟨1, 0, 0⟩

/-- A ray of unit direction that is along the axis of a placed branch or at an angle to it with a
squared sine of more than `1e-12` times the squared radius, and that is across the axis or at an
angle to it with a cosine of more than `1e-12` times the length of the branch. -/
structure Ray.ClearOf (ray : Ray ℝ) (placement : Mat4 ℝ) : Prop where
  wide :
    let sineSquared := 1 - ray.direction.dot placement.axis ^ 2 / placement.axis.lengthSquared
    sineSquared = 0 ∨ 1e-12 * placement.spoke.lengthSquared < sineSquared
  steep : ray.direction.dot placement.axis = 0 ∨
    1e-12 * placement.axis.lengthSquared < |ray.direction.dot placement.axis|

theorem Mat4.axis_eq (placement : Mat4 ℝ) :
    placement.axis = placement.transformVector .up := by
  simp only [axis, Placement.branchEnds, transformPoint_eq]
  obtain ⟨⟨_, _, _, _⟩, ⟨_, _, _, _⟩, ⟨_, _, _, _⟩, ⟨_, _, _, _⟩⟩ := placement
  simp only [transformVector, Vec3.up, Vec4.scale_mk, Vec4.add_mk, Vec4.truncate]
  ext <;> simp only [Vec3.sub_x, Vec3.sub_y, Vec3.sub_z, Vec3.add_x, Vec3.add_y, Vec3.add_z] <;>
    ring

section Turned

variable (scale offset : Vec3 ℝ) {turn : Quat ℝ} (turned : turn.lengthSquared = 1)
include turned

theorem Mat4.place_dot_axis (vector : Vec3 ℝ) :
    ((Mat4.place scale turn offset).transformVector vector).dot
        (Mat4.place scale turn offset).axis = scale.y * scale.y * vector.y := by
  rw [axis_eq, place_transformVector, place_transformVector, rotation_dot turned, Vec3.dot_eq,
    Vec3.up]
  ring

theorem Mat4.place_axis_lengthSquared :
    (Mat4.place scale turn offset).axis.lengthSquared = scale.y * scale.y := by
  rw [Vec3.lengthSquared, axis_eq, place_transformVector, rotation_dot turned, Vec3.dot_eq,
    Vec3.up]
  ring

theorem Mat4.place_spoke_lengthSquared :
    (Mat4.place scale turn offset).spoke.lengthSquared = scale.x * scale.x := by
  rw [Vec3.lengthSquared, spoke, place_transformVector, rotation_dot turned, Vec3.dot_eq]
  ring

end Turned

namespace Ray

variable {ray localRay : Ray ℝ}

/-- A threshold that is measured in some unit. -/
theorem past_iff {size value : ℝ} (positive : 0 < size) :
    (size * value = 0 ∨ 1e-12 * size < size * value) ↔ (value = 0 ∨ 1e-12 < value) := by
  rw [mul_comm size, mul_lt_mul_iff_left₀ positive, mul_eq_zero, or_iff_left positive.ne']

/-- In the coordinates of a branch its size is left out of the thresholds. -/
theorem clear_iff_clearOf {bottom top : Vec3 ℝ} {radius : ℝ} (thick : 0 < radius)
    (unit : ray.direction.lengthSquared = 1)
    (taken : ray.toLocal? (Placement.branch bottom top radius) = some localRay) :
    localRay.Clear ↔ ray.ClearOf (Placement.branch bottom top radius) := by
  obtain ⟨-, direction⟩ := (toLocal?_eq_some_iff (Placed.branch bottom top thick).regular).mp taken
  obtain ⟨length, turn, offset, long, turned, same⟩ :=
    Placement.branch_eq_place bottom top radius
  rw [same] at direction ⊢
  have along := Mat4.place_dot_axis ⟨radius, length, radius⟩ offset turned localRay.direction
  have axis := Mat4.place_axis_lengthSquared ⟨radius, length, radius⟩ offset turned
  have spoke := Mat4.place_spoke_lengthSquared ⟨radius, length, radius⟩ offset turned
  rw [direction] at along
  have sine : 1 - (length * length * localRay.direction.y) ^ 2 / (length * length) =
      radius * radius * (localRay.direction.x * localRay.direction.x +
        localRay.direction.z * localRay.direction.z) := by
    rw [Vec3.lengthSquared, ← direction, Mat4.place_transformVector, Mat4.rotation_dot turned,
      Vec3.dot_eq] at unit
    field_simp
    linear_combination -unit
  have magnitude : |length * length * localRay.direction.y| =
      length * length * |localRay.direction.y| := by
    rw [abs_mul, abs_of_pos (mul_pos long long)]
  refine ⟨fun clear => ⟨?_, ?_⟩, fun clear => ⟨?_, ?_⟩⟩
  · dsimp only
    rw [along, axis, spoke, sine, past_iff (mul_pos thick thick)]
    exact clear.wide
  · rw [along, axis, ← abs_eq_zero, magnitude, past_iff (mul_pos long long)]
    exact clear.steep
  · have known := clear.wide
    dsimp only at known
    rwa [along, axis, spoke, sine, past_iff (mul_pos thick thick)] at known
  · have known := clear.steep
    rwa [along, axis, ← abs_eq_zero, magnitude, past_iff (mul_pos long long)] at known

/-! ## Hits -/

variable {category : Category} {placement : Mat4 ℝ}

private theorem local_moving (regular : placement.Regular)
    (moving : 0 < ray.direction.lengthSquared)
    (taken : ray.toLocal? placement = some localRay) : 0 < localRay.direction.lengthSquared := by
  obtain ⟨-, direction⟩ := (toLocal?_eq_some_iff regular).mp taken
  refine Vec3.lengthSquared_pos fun still => moving.ne' ?_
  rw [← direction, still, Mat4.transformVector_zero]
  simp [Vec3.lengthSquared_eq, Vec3.zero]

/-- What a ray is found to meet in a placed body is there. -/
theorem point_mem_of_hitPlaced? (placed : Placed category placement)
    (moving : 0 < ray.direction.lengthSquared) {parameter : ℝ}
    (found : category.hitPlaced? ray placement = some parameter) :
    0 ≤ parameter ∧ ray.point parameter ∈ category.body placement := by
  obtain ⟨localRay, taken, hit⟩ := Option.bind_eq_some_iff.mp found
  unfold Category.body
  rw [point_mem_image_iff placed.regular taken]
  cases category with
  | branch => exact localRay.point_mem_of_hitCylinder? hit
  | leaf => exact localRay.point_mem_of_hitSphere? (local_moving placed.regular moving taken) hit

/-- A ray that starts outside a placed body is found to meet it where it first does. -/
theorem leastOf_hitPlaced? (placed : Placed category placement)
    (unit : ray.direction.lengthSquared = 1) (outside : ray.origin ∉ category.body placement)
    (clear : category = .branch → ray.ClearOf placement) :
    LeastOf {parameter | 0 ≤ parameter ∧ ray.point parameter ∈ category.body placement}
      (category.hitPlaced? ray placement) := by
  obtain ⟨localRay, taken⟩ := ray.exists_toLocal? placed.regular
  have moving := local_moving placed.regular (unit ▸ zero_lt_one) taken
  have inside (parameter : ℝ) : ray.point parameter ∈ placement.transformPoint '' category.solid ↔
      localRay.point parameter ∈ category.solid :=
    point_mem_image_iff placed.regular taken parameter
  have outside' : localRay.origin ∉ category.solid := by
    rwa [← localRay.point_zero, ← inside, ray.point_zero]
  simp only [Category.body, inside, Category.hitPlaced?, taken, Option.bind_some]
  cases placed with
  | branch bottom top thick =>
      have clear' := (clear_iff_clearOf thick unit taken).mpr (clear rfl)
      exact (localRay.finds_hitCylinder? moving clear').entry outside'
  | leaf center large => exact (localRay.finds_hitSphere? moving).entry outside'

end Ray

end Grove
