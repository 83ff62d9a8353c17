import Grove.Proofs.Linear.Length
import Grove.Proofs.Linear.Quaternion
import Grove.Forest.Fall

/-!
# Tipping over

The axis that a fall records is the upward direction crossed with the direction of the fall, so the
rotation about it takes what points up over to that direction, and not to the opposite one. In exact
arithmetic this is seen for every angle at once: half of it stands in the quaternion, and the whole
of it in the image of the upward direction.
-/

set_option autoImplicit false

namespace Grove

/-! ## Rotations about a point -/

namespace Mat4

private theorem shift_affine (offset : Vec3 ℝ) : (shift offset).Affine := by
  constructor <;> rfl

private theorem rotation_affine (turn : Quat ℝ) : (rotation turn).Affine := by
  constructor <;> rfl

private theorem transformPoint_mul (left : Mat4 ℝ) {right : Mat4 ℝ} (affine : right.Affine)
    (point : Vec3 ℝ) :
    (left * right).transformPoint point = left.transformPoint (right.transformPoint point) := by
  obtain ⟨⟨_, _, _, _⟩, ⟨_, _, _, _⟩, ⟨_, _, _, _⟩, ⟨_, _, _, _⟩⟩ := left
  obtain ⟨⟨_, _, _, _⟩, ⟨_, _, _, _⟩, ⟨_, _, _, _⟩, ⟨_, _, _, _⟩⟩ := right
  obtain ⟨rfl, rfl, rfl, rfl⟩ := affine
  change transformPoint ⟨apply _ _, apply _ _, apply _ _, apply _ _⟩ point = _
  simp only [apply, transformPoint, Vec4.scale_mk, Vec4.add_mk, Vec4.truncate]
  ext <;> simp only <;> ring

private theorem transformPoint_shift (offset point : Vec3 ℝ) :
    (shift offset).transformPoint point = point + offset := by
  simp only [shift, transformPoint, Vec3.extend, Vec4.scale_mk, Vec4.add_mk, Vec4.truncate]
  ext <;> simp [add_comm]

private theorem transformPoint_rotation {turn : Quat ℝ} (unit : turn.lengthSquared = 1)
    (point : Vec3 ℝ) : (rotation turn).transformPoint point = turn.rotate point := by
  rw [transformPoint_eq, Quat.transformVector_rotation unit]
  ext <;> simp [rotation, Vec4.truncate]

variable {axis : Vec3 ℝ} (unit : axis.lengthSquared = 1) (center : Vec3 ℝ) (angle : ℝ)

include unit

private theorem transformPoint_rotationAbout (point : Vec3 ℝ) :
    (rotationAbout center axis angle).transformPoint point =
      (Quat.ofAxisAngle axis angle).rotate (point - center) + center := by
  have back : point + -center = point - center := by
    ext <;> exact (sub_eq_add_neg _ _).symm
  rw [rotationAbout, transformPoint_mul _ (shift_affine _),
    transformPoint_mul _ (rotation_affine _), transformPoint_shift, transformPoint_shift,
    transformPoint_rotation (Quat.lengthSquared_ofAxisAngle unit angle), back]

private theorem rotationAbout_fixes :
    (rotationAbout center axis angle).transformPoint center = center := by
  have here : center - center = .zero := by
    ext <;> exact sub_self _
  rw [transformPoint_rotationAbout unit, here]
  ext <;> simp [Quat.ofAxisAngle, Vec3.zero]

private theorem rotationAbout_distance (first second : Vec3 ℝ) :
    ((rotationAbout center axis angle).transformPoint first).distance
        ((rotationAbout center axis angle).transformPoint second) = first.distance second := by
  have turned := Quat.lengthSquared_ofAxisAngle unit angle
  rw [transformPoint_rotationAbout unit, transformPoint_rotationAbout unit]
  generalize Quat.ofAxisAngle axis angle = turn at turned
  have apart : turn.rotate (first - center) + center - (turn.rotate (second - center) + center) =
      turn.rotate (first - second) := by
    obtain ⟨_, _, _, _⟩ := turn
    ext <;> simp only [Quat.rotate_mk, Vec3.add_x, Vec3.add_y, Vec3.add_z, Vec3.sub_x, Vec3.sub_y,
      Vec3.sub_z] <;> ring
  unfold Vec3.distance Vec3.length Vec3.lengthSquared
  rw [apart, Quat.rotate_dot, turned, one_pow, one_mul]

end Mat4

/-! ## The direction of a fall -/

namespace Fall

/-- A horizontal direction of length one. It points from the reference to the place, unless the
place is almost right above or below the reference. -/
structure Away (place reference direction : Vec3 ℝ) : Prop where
  unit : direction.lengthSquared = 1
  level : direction.y = 0
  along : 1e-6 ≤ (place - reference).horizontal.lengthSquared →
    ∃ factor : ℝ, 0 < factor ∧ (place - reference).horizontal = direction * factor

private theorem away_direction (place reference : Vec3 ℝ) :
    Away place reference (direction place reference) := by
  have offset : (⟨place.x - reference.x, 0, place.z - reference.z⟩ : Vec3 ℝ) =
      (place - reference).horizontal := by
    ext <;> simp [Vec3.horizontal]
  unfold direction
  dsimp only
  rw [offset]
  split
  · rename_i near
    refine ⟨?_, rfl, fun far => absurd near (not_lt.mpr far)⟩
    simp [defaultDirection, Vec3.lengthSquared_eq]
  · rename_i far
    obtain ⟨unit, length, same⟩ :=
      Vec3.normalize_of_pos (lt_of_lt_of_le (by norm_num) (not_lt.mp far))
    refine ⟨unit, ?_, fun _ => ⟨_, length, same⟩⟩
    simp [Vec3.normalize, Vec3.horizontal]

/-- The axis of a fall is across its direction. -/
theorem axis_start (felling : Felling ℝ) (place reference : Vec3 ℝ) :
    (Fall.start felling place reference).axis =
        Vec3.up.cross (direction place reference) ∧
      (Fall.start felling place reference).axis.lengthSquared = 1 := by
  obtain ⟨unit, level, -⟩ := away_direction place reference
  generalize same : direction place reference = ahead at unit level
  have across : (Vec3.up.cross ahead).lengthSquared = 1 := by
    simp only [Vec3.lengthSquared_eq, Vec3.cross, Vec3.up] at unit ⊢
    rw [level] at unit ⊢
    linear_combination unit
  have axis : (Fall.start felling place reference).axis = Vec3.up.cross ahead := by
    unfold Fall.start
    dsimp only
    rw [same, Vec3.normalize_of_unit across]
  exact ⟨axis, axis ▸ across⟩

/-- The turn about the axis takes what points up over to the direction. -/
theorem rotate_up_ofAxisAngle {ahead : Vec3 ℝ} (unit : ahead.lengthSquared = 1)
    (level : ahead.y = 0) (angle : ℝ) :
    (Quat.ofAxisAngle (Vec3.up.cross ahead) angle).rotate .up =
      (Vec3.up : Vec3 ℝ) * Real.cos angle + ahead * Real.sin angle := by
  have half : angle = 2 * (angle * 0.5) := by ring
  have cosine : Real.cos angle = Real.cos (angle * 0.5) ^ 2 - Real.sin (angle * 0.5) ^ 2 := by
    rw [half, Real.cos_two_mul', ← half]
  have sine : Real.sin angle = 2 * Real.sin (angle * 0.5) * Real.cos (angle * 0.5) := by
    rw [half, Real.sin_two_mul, ← half]
  rw [Vec3.lengthSquared_eq, level] at unit
  obtain ⟨x, y, z⟩ := ahead
  obtain rfl : y = 0 := level
  have turn : Quat.ofAxisAngle (Vec3.up.cross ⟨x, 0, z⟩) angle =
      (⟨z * Real.sin (angle * 0.5), 0, -x * Real.sin (angle * 0.5), Real.cos (angle * 0.5)⟩ :
        Quat ℝ) := by
    have across : Vec3.up.cross ⟨x, 0, z⟩ = (⟨z, 0, -x⟩ : Vec3 ℝ) := by
      ext <;> simp [Vec3.cross, Vec3.up]
    rw [across]
    ext
    · rfl
    · exact zero_mul _
    · rfl
    · rfl
  rw [turn, cosine, sine]
  ext <;> simp only [Quat.rotate_mk, Vec3.up, Vec3.add_x, Vec3.add_y, Vec3.add_z, Vec3.mul_x,
    Vec3.mul_y, Vec3.mul_z]
  · ring
  · linear_combination -Real.sin (angle * 0.5) ^ 2 * unit
  · ring

/-- A rotation that fixes a place, keeps all distances and tips over what stands on the place. -/
structure TipsOver (place ahead : Vec3 ℝ) (angle : ℝ) (turn : Mat4 ℝ) : Prop where
  fixed : turn.transformPoint place = place
  keeps : ∀ first second, (turn.transformPoint first).distance (turn.transformPoint second) =
    first.distance second
  tips : ∀ height : ℝ, turn.transformPoint (place + (Vec3.up : Vec3 ℝ) * height) =
    place + ((Vec3.up : Vec3 ℝ) * Real.cos angle + ahead * Real.sin angle) * height

private theorem tipsOver_rotationAbout {ahead : Vec3 ℝ} (unit : ahead.lengthSquared = 1)
    (level : ahead.y = 0) (across : (Vec3.up.cross ahead).lengthSquared = 1) (place : Vec3 ℝ)
    (angle : ℝ) :
    TipsOver place ahead angle (Mat4.rotationAbout place (Vec3.up.cross ahead) angle) where
  fixed := Mat4.rotationAbout_fixes across place angle
  keeps := Mat4.rotationAbout_distance across place angle
  tips height := by
    have above : place + (Vec3.up : Vec3 ℝ) * height - place = (Vec3.up : Vec3 ℝ) * height := by
      ext <;> exact add_sub_cancel_left _ _
    have scaled : ∀ turn : Quat ℝ,
        turn.rotate ((Vec3.up : Vec3 ℝ) * height) = turn.rotate .up * height := by
      rintro ⟨_, _, _, _⟩
      ext <;> simp only [Quat.rotate_mk, Vec3.mul_x, Vec3.mul_y, Vec3.mul_z] <;> ring
    rw [Mat4.transformPoint_rotationAbout across, above, scaled, rotate_up_ofAxisAngle unit level]
    ext <;> exact add_comm _ _

/-- What stands on a place and is tipped over to a direction: it is not below the place, it is moved
along the direction, and so its horizontal distance from the reference grows. -/
structure LeansAway (place reference ahead top : Vec3 ℝ) (reach : ℝ) : Prop where
  reaches : 0 ≤ reach
  above : place.y ≤ top.y
  moved : (top - place).horizontal = ahead * reach
  farther : 1e-6 ≤ (place - reference).horizontal.lengthSquared →
    (top - reference).horizontal.length = (place - reference).horizontal.length + reach

theorem TipsOver.leansAway {place reference ahead : Vec3 ℝ} {angle : ℝ} {turn : Mat4 ℝ}
    (tips : TipsOver place ahead angle turn) (away : Away place reference ahead)
    (least : 0 ≤ angle) (most : angle ≤ Real.pi / 2) {height : ℝ} (positive : 0 < height) :
    LeansAway place reference ahead
      (turn.transformPoint (place + (Vec3.up : Vec3 ℝ) * height)) (height * Real.sin angle) := by
  have sine : 0 ≤ Real.sin angle :=
    Real.sin_nonneg_of_nonneg_of_le_pi least (by linarith [Real.pi_pos])
  have cosine : 0 ≤ Real.cos angle :=
    Real.cos_nonneg_of_neg_pi_div_two_le_of_le (by linarith [Real.pi_pos]) most
  obtain ⟨unit, level, along⟩ := away
  have reaches := mul_nonneg positive.le sine
  have measure : ∀ {length : ℝ}, 0 ≤ length → (ahead * length).length = length :=
    fun nonneg => Vec3.length_mul unit nonneg
  rw [tips.tips]
  refine ⟨reaches, ?_, ?_, fun far => ?_⟩
  · simp [Vec3.up, level]
    positivity
  · ext <;> simp [Vec3.horizontal, Vec3.up, level, mul_comm, mul_left_comm]
  · obtain ⟨factor, apart, same⟩ := along far
    have further :
        (place + ((Vec3.up : Vec3 ℝ) * Real.cos angle + ahead * Real.sin angle) * height -
          reference).horizontal = ahead * (factor + height * Real.sin angle) := by
      have x := congrArg Vec3.x same
      have z := congrArg Vec3.z same
      simp only [Vec3.horizontal, Vec3.sub_x, Vec3.sub_z, Vec3.mul_x, Vec3.mul_z] at x z
      ext
      · simp [Vec3.horizontal, Vec3.up]
        linear_combination x
      · simp [Vec3.horizontal, level]
      · simp [Vec3.horizontal, Vec3.up]
        linear_combination z
    rw [further, same, measure apart.le, measure (by positivity)]

/-- A standing tree can be felled from every reference point. The direction of its fall is
horizontal and points away from the reference, and the rotation by any angle about the axis that the
fall records takes what stands on the base of the tree over to that direction, about the base and
without changing distances. -/
theorem tips_of_start (animator : Animator ℝ) {tree : Tree ℝ} (standing : tree.phase = .standing)
    (reference : Vec3 ℝ) :
    let ahead := direction tree.position reference
    Away tree.position reference ahead ∧
      ∃ next fallen fall, animator.start? tree reference = some (next, fallen) ∧
        fallen = { tree with phase := .falling fall } ∧
        ∀ angle, TipsOver tree.position ahead angle
            (Mat4.rotationAbout tree.position fall.axis angle) ∧
          (0 ≤ angle → angle ≤ Real.pi / 2 → ∀ height, 0 < height →
            LeansAway tree.position reference ahead
              ((Mat4.rotationAbout tree.position fall.axis angle).transformPoint
                (tree.position + (Vec3.up : Vec3 ℝ) * height)) (height * Real.sin angle)) := by
  intro ahead
  have away := away_direction tree.position reference
  have starts : animator.start? tree reference =
      some ({ animator with active := animator.active ++ [tree.id] },
        { tree with phase := .falling (.start animator.felling tree.position reference) }) := by
    unfold Animator.start?
    rw [standing]
    rfl
  obtain ⟨axis, across⟩ := axis_start animator.felling tree.position reference
  rw [axis] at across
  refine ⟨away, _, _, _, starts, rfl, fun angle => ?_⟩
  rw [axis]
  have tips := tipsOver_rotationAbout away.unit away.level across tree.position angle
  exact ⟨tips, fun least most height positive => tips.leansAway away least most positive⟩

/-- A tree that is felled from the west lies to the east in the end. -/
theorem tips_of_start_west :
    let tree : Tree ℝ := { id := 0, position := ⟨5, 0, 0⟩, trunkRadius := 1 }
    let quarter := Real.pi / 2
    tree.phase = .standing ∧ 1e-6 ≤ (tree.position - Vec3.zero).horizontal.lengthSquared ∧
      0 ≤ quarter ∧ quarter ≤ Real.pi / 2 ∧
      ∃ next fallen fall, Animator.start? ⟨.standard, []⟩ tree .zero = some (next, fallen) ∧
        fallen = { tree with phase := .falling fall } ∧
        LeansAway tree.position .zero (direction tree.position .zero)
          ((Mat4.rotationAbout tree.position fall.axis quarter).transformPoint
            (tree.position + (Vec3.up : Vec3 ℝ) * (2 : ℝ))) 2 := by
  intro tree quarter
  have far : 1e-6 ≤ (tree.position - Vec3.zero).horizontal.lengthSquared := by
    norm_num [tree, Vec3.horizontal, Vec3.lengthSquared_eq, Vec3.zero]
  have least : 0 ≤ quarter := by positivity
  obtain ⟨away, next, fallen, fall, starts, phase, tips⟩ :=
    tips_of_start ⟨.standard, []⟩ (rfl : tree.phase = .standing) .zero
  have leans := (tips quarter).2 least le_rfl 2 two_pos
  rw [Real.sin_pi_div_two, mul_one] at leans
  exact ⟨rfl, far, least, le_rfl, next, fallen, fall, starts, phase, leans⟩

end Fall

end Grove
