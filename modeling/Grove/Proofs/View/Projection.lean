import Grove.Proofs.Linear.Inverse
import Grove.Viewer.Basic

/-!
# Rays through screen points

In exact arithmetic the ray through a screen point runs along all points of the world that are
projected to it. Which points these are is a matter of homogeneous coordinates: the first two clip
coordinates are the device coordinates of the screen point times the last one. The near and the far
point of the ray are two of them, and the map from the world to clip space is linear, so the others
are those on the line through these two.
-/

set_option autoImplicit false

namespace Grove

namespace View

/-- The point of clip space that a point of the world goes to. -/
noncomputable def clip (view : View ℝ) (point : Vec3 ℝ) : Vec4 ℝ :=
  view.projection.apply (point.extend 1)

/-- A point of the world lies on the line of sight of a screen point, before the eye or behind
it. -/
structure Sights (view : View ℝ) (screen : Vec2 ℝ) (point : Vec3 ℝ) : Prop where
  x : (view.clip point).x = (view.toDevice screen).x * (view.clip point).w
  y : (view.clip point).y = (view.toDevice screen).y * (view.clip point).w

private theorem toDevice_eq (view : View ℝ) (screen : Vec2 ℝ) :
    view.toDevice screen =
      ⟨2 * screen.x / view.viewport.x - 1, 1 - 2 * screen.y / view.viewport.y⟩ := by
  have two : (2.0 : ℝ) = 2 := by norm_num
  rw [toDevice, two]

theorem project?_eq (view : View ℝ) (point : Vec3 ℝ) :
    view.project? point =
      if (view.clip point).w ≤ 1e-6 then none
      else some
        ⟨((view.clip point).x / (view.clip point).w + 1) / 2 * view.viewport.x,
         (1 - (view.clip point).y / (view.clip point).w) / 2 * view.viewport.y⟩ := by
  have half : (0.5 : ℝ) = 2⁻¹ := by norm_num
  rw [project?, half]
  rfl

/-- The points that are projected to a screen point are those on its line of sight that do not lie
behind the eye. -/
theorem project?_eq_some_iff {view : View ℝ} (wide : 0 < view.viewport.x)
    (high : 0 < view.viewport.y) {point : Vec3 ℝ} {screen : Vec2 ℝ} :
    view.project? point = some screen ↔
      1e-6 < (view.clip point).w ∧ view.Sights screen point := by
  rw [project?_eq, Option.ite_none_left_eq_some, not_le]
  refine and_congr_right fun before => ?_
  have weight : (view.clip point).w ≠ 0 := (lt_trans (by norm_num) before).ne'
  obtain ⟨x, y⟩ := screen
  rw [Option.some.injEq, Vec2.mk.injEq]
  constructor
  · rintro ⟨rfl, rfl⟩
    constructor <;> rw [toDevice_eq] <;> field_simp <;> ring
  · rintro ⟨horizontal, vertical⟩
    rw [toDevice_eq] at horizontal vertical
    rw [horizontal, vertical]
    constructor <;> field_simp <;> ring

/-! ## Lines of sight -/

/-- Two points of a line of sight, one of them at no depth. -/
structure Spans (view : View ℝ) (screen : Vec2 ℝ) (near far : Vec3 ℝ) : Prop where
  regular : view.projection.determinant ≠ 0
  near : ∃ weight : ℝ, view.clip near * weight =
    ⟨(view.toDevice screen).x, (view.toDevice screen).y, 0, 1⟩
  far : ∃ weight : ℝ, view.clip far * weight =
    ⟨(view.toDevice screen).x, (view.toDevice screen).y, 1, 1⟩

private theorem sights_of_scaled {view : View ℝ} {screen : Vec2 ℝ} {point : Vec3 ℝ}
    {weight depth : ℝ} (scaled : view.clip point * weight =
      ⟨(view.toDevice screen).x, (view.toDevice screen).y, depth, 1⟩) :
    view.Sights screen point := by
  have x : (view.clip point).x * weight = (view.toDevice screen).x := congrArg Vec4.x scaled
  have y : (view.clip point).y * weight = (view.toDevice screen).y := congrArg Vec4.y scaled
  have w : (view.clip point).w * weight = 1 := congrArg Vec4.w scaled
  constructor
  · linear_combination (view.clip point).w * x - (view.clip point).x * w
  · linear_combination (view.clip point).w * y - (view.clip point).y * w

private theorem clip_line (view : View ℝ) (near far : Vec3 ℝ) (share : ℝ) :
    view.clip (near + (far - near) * share) =
      view.clip near * (1 - share) + view.clip far * share := by
  unfold clip
  rw [← Mat4.apply_scale, ← Mat4.apply_scale, ← Mat4.apply_add]
  congr 1
  ext <;> simp only [Vec3.extend, Vec3.add_x, Vec3.add_y, Vec3.add_z, Vec3.sub_x, Vec3.sub_y,
    Vec3.sub_z, Vec3.mul_x, Vec3.mul_y, Vec3.mul_z, Vec4.scale_mk, Vec4.add_mk] <;> ring

/-- In clip space a point of the line of sight is a sum of multiples of the two, so it is in the
world, where the multiples add up to one. -/
theorem Spans.exists_share {view : View ℝ} {screen : Vec2 ℝ} {near far : Vec3 ℝ}
    (spans : view.Spans screen near far) {point : Vec3 ℝ} (sights : view.Sights screen point) :
    ∃ share : ℝ, near + (far - near) * share = point := by
  obtain ⟨regular, ⟨nearWeight, nearScaled⟩, ⟨farWeight, farScaled⟩⟩ := spans
  obtain ⟨left, isLeft⟩ : ∃ left, left =
    nearWeight * ((view.clip point).w - (view.clip point).z) := ⟨_, rfl⟩
  obtain ⟨right, isRight⟩ : ∃ right, right = farWeight * (view.clip point).z := ⟨_, rfl⟩
  have mixed : point.extend 1 = near.extend 1 * left + far.extend 1 * right := by
    apply Mat4.apply_injective regular
    rw [Mat4.apply_add, Mat4.apply_scale, Mat4.apply_scale]
    change view.clip point = view.clip near * left + view.clip far * right
    rw [isLeft, isRight, ← Vec4.scale_scale, ← Vec4.scale_scale, nearScaled, farScaled]
    ext <;> simp only [Vec4.scale_mk, Vec4.add_mk]
    · rw [sights.x]
      ring
    · rw [sights.y]
      ring
    · ring
    · ring
  have whole : 1 = 1 * left + 1 * right := congrArg Vec4.w mixed
  have x : point.x = near.x * left + far.x * right := congrArg Vec4.x mixed
  have y : point.y = near.y * left + far.y * right := congrArg Vec4.y mixed
  have z : point.z = near.z * left + far.z * right := congrArg Vec4.z mixed
  obtain rfl : left = 1 - right := by linarith
  refine ⟨right, ?_⟩
  ext <;> simp only [Vec3.add_x, Vec3.add_y, Vec3.add_z, Vec3.sub_x, Vec3.sub_y, Vec3.sub_z,
    Vec3.mul_x, Vec3.mul_y, Vec3.mul_z]
  · rw [x]
    ring
  · rw [y]
    ring
  · rw [z]
    ring

/-- A line of sight is the line through any two points that span it. -/
theorem Spans.sights_iff {view : View ℝ} {screen : Vec2 ℝ} {near far : Vec3 ℝ}
    (spans : view.Spans screen near far) {point : Vec3 ℝ} :
    view.Sights screen point ↔ ∃ share : ℝ, near + (far - near) * share = point := by
  refine ⟨spans.exists_share, ?_⟩
  obtain ⟨-, ⟨nearWeight, nearScaled⟩, ⟨farWeight, farScaled⟩⟩ := spans
  rintro ⟨share, rfl⟩
  obtain ⟨nearX, nearY⟩ := sights_of_scaled nearScaled
  obtain ⟨farX, farY⟩ := sights_of_scaled farScaled
  constructor <;> rw [clip_line]
  · change (view.clip near).x * (1 - share) + (view.clip far).x * share =
      _ * ((view.clip near).w * (1 - share) + (view.clip far).w * share)
    rw [nearX, farX]
    ring
  · change (view.clip near).y * (1 - share) + (view.clip far).y * share =
      _ * ((view.clip near).w * (1 - share) + (view.clip far).w * share)
    rw [nearY, farY]
    ring

/-! ## Rays -/

/-- The point with given device coordinates is the one that they are clip coordinates of, up to a
weight that is not too small. -/
theorem unproject?_eq_some_iff {view : View ℝ} (regular : view.projection.determinant ≠ 0)
    {device : Vec2 ℝ} {depth : ℝ} {point : Vec3 ℝ} :
    unproject? view.projection.inverse device depth = some point ↔
      ∃ weight : ℝ, 1e-9 < |weight| ∧
        view.clip point * weight = ⟨device.x, device.y, depth, 1⟩ := by
  have nonzero : ∀ {weight : ℝ}, 1e-9 < |weight| → weight ≠ 0 := fun apart =>
    abs_pos.mp (lt_trans (by norm_num) apart)
  rw [unproject?, Option.ite_none_right_eq_some, Option.some.injEq]
  constructor
  · obtain ⟨reached, isReached⟩ : ∃ reached, reached =
      view.projection.inverse.apply ⟨device.x, device.y, depth, 1⟩ := ⟨_, rfl⟩
    rw [← isReached]
    rintro ⟨apart, rfl⟩
    have same : (reached.truncate / reached.w).extend 1 * reached.w = reached := by
      ext
      · exact div_mul_cancel₀ _ (nonzero apart)
      · exact div_mul_cancel₀ _ (nonzero apart)
      · exact div_mul_cancel₀ _ (nonzero apart)
      · exact one_mul _
    refine ⟨reached.w, apart, ?_⟩
    rw [clip, ← Mat4.apply_scale, same, isReached]
    exact (Mat4.inverse_undoes regular _).1
  · rintro ⟨weight, apart, scaled⟩
    rw [← scaled, clip, ← Mat4.apply_scale, (Mat4.inverse_undoes regular _).2]
    have one : (point.extend 1 * weight).w = weight := one_mul weight
    rw [one]
    refine ⟨apart, ?_⟩
    ext
    · exact mul_div_cancel_right₀ _ (nonzero apart)
    · exact mul_div_cancel_right₀ _ (nonzero apart)
    · exact mul_div_cancel_right₀ _ (nonzero apart)

private theorem exists_factor_of_towards? {origin direction : Vec3 ℝ} {ray : Ray ℝ}
    (found : Ray.towards? origin direction = some ray) :
    ∃ factor : ℝ, factor ≠ 0 ∧ ray = ⟨origin, direction * factor⟩ := by
  obtain ⟨scaled, normalized, rfl⟩ := Option.map_eq_some_iff.mp found
  obtain ⟨positive, same⟩ := Option.ite_none_right_eq_some.mp normalized
  obtain rfl := Option.some.inj same
  exact ⟨1 / direction.length, (of_decide_eq_true positive).ne', rfl⟩

/-- The ray of a screen point runs from one point of its line of sight towards another. -/
theorem exists_spans_of_ray? {view : View ℝ} {screen : Vec2 ℝ} {ray : Ray ℝ}
    (found : view.ray? screen = some ray) :
    0 < view.viewport.x ∧ 0 < view.viewport.y ∧
      ∃ near far, ∃ factor : ℝ, view.Spans screen near far ∧ factor ≠ 0 ∧
        ray = ⟨near, (far - near) * factor⟩ := by
  unfold ray? at found
  obtain ⟨wide, found⟩ := Option.ite_none_left_eq_some.mp found
  obtain ⟨high, found⟩ := Option.ite_none_left_eq_some.mp found
  obtain ⟨apart, found⟩ := Option.ite_none_left_eq_some.mp found
  obtain ⟨near, nearFound, found⟩ := Option.bind_eq_some_iff.mp found
  obtain ⟨far, farFound, found⟩ := Option.bind_eq_some_iff.mp found
  obtain ⟨factor, nonzero, same⟩ := exists_factor_of_towards? found
  have regular : view.projection.determinant ≠ 0 := by
    have positive : (0 : ℝ) < Scalar.epsilon := by norm_num [Scalar.epsilon]
    exact abs_pos.mp (positive.trans_le (not_lt.mp apart))
  obtain ⟨nearWeight, -, nearScaled⟩ := (unproject?_eq_some_iff regular).mp nearFound
  obtain ⟨farWeight, -, farScaled⟩ := (unproject?_eq_some_iff regular).mp farFound
  exact ⟨not_le.mp wide, not_le.mp high, near, far, factor,
    ⟨regular, ⟨nearWeight, nearScaled⟩, ⟨farWeight, farScaled⟩⟩, nonzero, same⟩

/-- The points on the line of a ray are those on the line of sight of its screen point. -/
theorem exists_point_iff {view : View ℝ} {screen : Vec2 ℝ} {ray : Ray ℝ}
    (found : view.ray? screen = some ray) {point : Vec3 ℝ} :
    (∃ parameter, ray.point parameter = point) ↔ view.Sights screen point := by
  obtain ⟨-, -, near, far, factor, spans, nonzero, rfl⟩ := exists_spans_of_ray? found
  have along : ∀ parameter : ℝ, Ray.point ⟨near, (far - near) * factor⟩ parameter =
      near + (far - near) * (factor * parameter) := by
    intro parameter
    ext <;> exact congrArg (_ + ·) (mul_assoc _ _ _)
  simp only [along, spans.sights_iff]
  constructor
  · rintro ⟨parameter, rfl⟩
    exact ⟨factor * parameter, rfl⟩
  · rintro ⟨share, rfl⟩
    exact ⟨share / factor, by rw [mul_div_cancel₀ share nonzero]⟩

/-- The points that are projected to a screen point are those on the line of its ray that do not lie
behind the eye. -/
theorem project?_eq_some_iff_of_ray? {view : View ℝ} {screen : Vec2 ℝ} {ray : Ray ℝ}
    (found : view.ray? screen = some ray) {point : Vec3 ℝ} :
    view.project? point = some screen ↔
      1e-6 < (view.clip point).w ∧ ∃ parameter, ray.point parameter = point := by
  obtain ⟨wide, high, -⟩ := exists_spans_of_ray? found
  rw [project?_eq_some_iff wide high, exists_point_iff found]

end View

theorem Ray.eq_of_hitPlane? {ray : Ray ℝ} {height meets parameter : ℝ}
    (found : ray.hitPlane? height = some meets) (within : (ray.point parameter).y = height) :
    parameter = meets := by
  unfold Ray.hitPlane? at found
  obtain ⟨steep, found⟩ := Option.ite_none_left_eq_some.mp found
  obtain ⟨-, same⟩ := Option.ite_none_right_eq_some.mp found
  have rising : ray.direction.y ≠ 0 :=
    abs_pos.mp (lt_of_lt_of_le (by norm_num) (not_lt.mp steep))
  have moved : ray.origin.y + ray.direction.y * parameter = height := within
  rw [← Option.some.inj same, ← moved]
  field_simp
  ring

theorem Ray.towards?_of_length_pos {origin direction : Vec3 ℝ} (long : 0 < direction.length) :
    Ray.towards? origin direction = some ⟨origin, direction * (1 / direction.length)⟩ := by
  have positive : 0 < 1 / direction.length := one_div_pos.mpr long
  have finite : Scalar.isFinite (1 / direction.length) = true := rfl
  rw [towards?, Vec3.normalize?]
  simp only [finite, positive, decide_true, Bool.and_self, if_true, Option.map_some]

namespace Viewer

/-- The actor moves to where the ray of the screen point meets the ground. -/
theorem moveActor_eq_true_iff {viewer moved : Viewer ℝ} {screen size : Vec2 ℝ} :
    viewer.moveActor screen size = (true, moved) ↔
      ∃ ray meets, (viewer.camera.view size).ray? screen = some ray ∧
        ray.hitPlane? groundHeight = some meets ∧
        moved = { viewer with actor := ray.point meets } := by
  unfold moveActor
  dsimp only
  constructor
  · intro moves
    split at moves
    · cases moves
    · rename_i target
      cases moves
      obtain ⟨ray, found, target⟩ := Option.bind_eq_some_iff.mp target
      obtain ⟨meets, hit, target⟩ := Option.bind_eq_some_iff.mp target
      cases target
      exact ⟨ray, meets, found, hit, rfl⟩
  · rintro ⟨ray, meets, found, hit, rfl⟩
    rw [found, Option.bind_eq_bind, Option.bind_some, hit]
    rfl

/-- In exact arithmetic rays undo projections, for every view: where a screen point has a ray, the
points that are projected to it lie on the line of the ray, and those of them that do not lie behind
the eye are projected to it. So an actor that is moved to a screen point where a point of the ground
is seen comes to stand on that point. -/
theorem rays_undo_projections :
    (∀ (view : View ℝ) (screen : Vec2 ℝ) (ray : Ray ℝ), view.ray? screen = some ray →
      (∀ point, view.project? point = some screen → ∃ parameter, ray.point parameter = point) ∧
        ∀ parameter, 1e-6 < (view.clip (ray.point parameter)).w →
          view.project? (ray.point parameter) = some screen) ∧
      ∀ (viewer moved : Viewer ℝ) (screen size : Vec2 ℝ) (point : Vec3 ℝ),
        point.y = groundHeight → (viewer.camera.view size).project? point = some screen →
          viewer.moveActor screen size = (true, moved) → moved = { viewer with actor := point } := by
  refine ⟨fun view screen ray found => ⟨fun point seen => ?_, fun parameter before => ?_⟩,
    fun viewer moved screen size point ground seen moves => ?_⟩
  · exact ((View.project?_eq_some_iff_of_ray? found).mp seen).2
  · exact (View.project?_eq_some_iff_of_ray? found).mpr ⟨before, parameter, rfl⟩
  · obtain ⟨ray, meets, found, hit, rfl⟩ := moveActor_eq_true_iff.mp moves
    obtain ⟨-, parameter, rfl⟩ := (View.project?_eq_some_iff_of_ray? found).mp seen
    rw [Ray.eq_of_hitPlane? hit ground]

/-- A viewer that looks north, from ten units behind the origin and one above it. -/
noncomputable def ahead : Viewer ℝ where
  config := .standard
  ruleText := []
  population := ⟨{}, { felling := .standard }⟩
  renderer := .empty
  generator := .ofSeed 0
  entropy := .ofSeed 0
  camera := ⟨⟨0, 1, 0⟩, 0, 0, 10, Real.pi * 0.5⟩
  actor := ⟨3, 0, 0⟩
  lastStep := 0

private theorem eye_ahead : ahead.camera.eye = ⟨0, 1, 10⟩ := by
  have still : Scalar.sin (0 : ℝ) = 0 := Real.sin_zero
  have level : Scalar.cos (0 : ℝ) = 1 := Real.cos_zero
  ext <;> simp [ahead, Camera.eye, still, level]

private theorem lookAt_ahead :
    Mat4.lookAt ahead.camera.eye ahead.camera.target .up =
      ⟨⟨1, 0, 0, 0⟩, ⟨0, 1, 0, 0⟩, ⟨0, 0, 1, 0⟩, ⟨0, -1, -10, 1⟩⟩ := by
  have forward : (ahead.camera.target - ahead.camera.eye).normalize = ⟨0, 0, -1⟩ := by
    have length : Vec3.length (⟨0, 1, 0⟩ - ⟨0, 1, 10⟩ : Vec3 ℝ) = 10 := by
      refine (congrArg Real.sqrt ?_).trans (Real.sqrt_sq (by norm_num : (0 : ℝ) ≤ 10))
      rw [Vec3.lengthSquared_eq]
      norm_num
    rw [eye_ahead, Vec3.normalize]
    change (_ : Vec3 ℝ) * (1 / Vec3.length (⟨0, 1, 0⟩ - ⟨0, 1, 10⟩ : Vec3 ℝ)) = _
    rw [length]
    ext <;> norm_num [ahead]
  have side : (Vec3.cross ⟨0, 0, -1⟩ Vec3.up : Vec3 ℝ).normalize = ⟨1, 0, 0⟩ := by
    have length : Vec3.length (Vec3.cross ⟨0, 0, -1⟩ Vec3.up : Vec3 ℝ) = 1 := by
      refine (congrArg Real.sqrt ?_).trans Real.sqrt_one
      rw [Vec3.lengthSquared_eq]
      norm_num [Vec3.cross, Vec3.up]
    rw [Vec3.normalize, length]
    ext <;> norm_num [Vec3.cross, Vec3.up]
  rw [Mat4.lookAt, forward, side, eye_ahead]
  simp [Vec3.cross, Vec3.dot]

private theorem perspective_ahead :
    Mat4.perspective ahead.camera.fovY 1 Camera.nearPlane Camera.farPlane =
      ⟨⟨1, 0, 0, 0⟩, ⟨0, 1, 0, 0⟩, ⟨0, 0, -10000 / 9999, -1⟩, ⟨0, 0, -1000 / 9999, 0⟩⟩ := by
  have half : (0.5 : ℝ) * (Real.pi * 0.5) = Real.pi / 4 := by ring
  have ratio : Scalar.cos (Real.pi / 4) / Scalar.sin (Real.pi / 4) = 1 := by
    change Real.cos (Real.pi / 4) / Real.sin (Real.pi / 4) = 1
    rw [Real.cos_pi_div_four, Real.sin_pi_div_four]
    exact div_self (by positivity)
  simp only [ahead, Mat4.perspective, half, ratio, Camera.nearPlane, Camera.farPlane]
  norm_num

private theorem view_ahead : ahead.camera.view ⟨2, 2⟩ =
    ⟨⟨⟨1, 0, 0, 0⟩, ⟨0, 1, 0, 0⟩, ⟨0, 0, -10000 / 9999, -1⟩, ⟨0, -1, 11000 / 1111, 10⟩⟩,
      ⟨2, 2⟩⟩ := by
  have aspect : Scalar.max (if (0 : ℝ) < 2 then 2 / 2 else 1) 1e-3 = (1 : ℝ) := by
    rw [Exact.max_eq]
    norm_num
  rw [Camera.view, Camera.projection, aspect, lookAt_ahead, perspective_ahead]
  congr 1
  change Mat4.mk (Mat4.apply _ _) (Mat4.apply _ _) (Mat4.apply _ _) (Mat4.apply _ _) = _
  simp only [Mat4.apply, Vec4.scale_mk, Vec4.add_mk]
  norm_num

private theorem project?_ahead :
    (ahead.camera.view ⟨2, 2⟩).project? ⟨0, 0, 0⟩ = some ⟨1, 11 / 10⟩ := by
  have clip : View.clip (ahead.camera.view ⟨2, 2⟩) ⟨0, 0, 0⟩ = ⟨0, -1, 11000 / 1111, 10⟩ := by
    rw [view_ahead]
    simp [View.clip, Mat4.apply, Vec3.extend]
  rw [View.project?_eq, clip, view_ahead]
  norm_num

private theorem ray?_ahead : ∃ factor : ℝ, 1 / 2000 < factor ∧
    (ahead.camera.view ⟨2, 2⟩).ray? ⟨1, 11 / 10⟩ =
      some ⟨⟨0, 99 / 100, 99 / 10⟩, (⟨0, -9999 / 100, -9999 / 10⟩ : Vec3 ℝ) * factor⟩ := by
  obtain ⟨view, isView⟩ : ∃ view, view = ahead.camera.view ⟨2, 2⟩ := ⟨_, rfl⟩
  have viewport : view.viewport = ⟨2, 2⟩ := by rw [isView, view_ahead]
  have determinant : view.projection.determinant = -1000 / 9999 := by
    rw [isView, view_ahead]
    norm_num [Mat4.determinant, Vec4.dot]
  have regular : view.projection.determinant ≠ 0 := by norm_num [determinant]
  have device : view.toDevice ⟨1, 11 / 10⟩ = ⟨0, -1 / 10⟩ := by
    rw [View.toDevice_eq, viewport]
    norm_num
  have clip : ∀ y z, view.clip ⟨0, y, z⟩ =
      ⟨0, y - 1, 11000 / 1111 - 10000 / 9999 * z, 10 - z⟩ := by
    intro y z
    rw [isView, view_ahead]
    simp only [View.clip, Mat4.apply, Vec3.extend, Vec4.scale_mk, Vec4.add_mk]
    ext <;> ring
  have near : View.unproject? view.projection.inverse ⟨0, -1 / 10⟩ 0 =
      some ⟨0, 99 / 100, 99 / 10⟩ :=
    (View.unproject?_eq_some_iff regular).mpr ⟨10, by norm_num, by rw [clip]; norm_num⟩
  have far : View.unproject? view.projection.inverse ⟨0, -1 / 10⟩ 1 = some ⟨0, -99, -990⟩ :=
    (View.unproject?_eq_some_iff regular).mpr ⟨1 / 1000, by norm_num, by rw [clip]; norm_num⟩
  have apart : (⟨0, -99, -990⟩ - ⟨0, 99 / 100, 99 / 10⟩ : Vec3 ℝ) =
      ⟨0, -9999 / 100, -9999 / 10⟩ := by
    ext <;> norm_num
  have length : (1 : ℝ) < (⟨0, -9999 / 100, -9999 / 10⟩ : Vec3 ℝ).length ∧
      (⟨0, -9999 / 100, -9999 / 10⟩ : Vec3 ℝ).length < 2000 := by
    rw [Vec3.length, Vec3.lengthSquared_eq]
    constructor
    · exact (Real.lt_sqrt (by norm_num)).mpr (by norm_num)
    · exact (Real.sqrt_lt' (by norm_num)).mpr (by norm_num)
  refine ⟨1 / (⟨0, -9999 / 100, -9999 / 10⟩ : Vec3 ℝ).length, ?_, ?_⟩
  · exact one_div_lt_one_div_of_lt (by linarith) length.2
  · rw [← isView, View.ray?, viewport, if_neg (by norm_num), if_neg (by norm_num),
      if_neg (by rw [determinant]; norm_num [Scalar.epsilon, Scalar.abs]), device]
    dsimp only
    rw [near, far]
    change Ray.towards? _ (_ - _) = _
    rw [apart, Ray.towards?_of_length_pos (by linarith)]

private theorem moveActor_ahead : ∃ moved, ahead.moveActor ⟨1, 11 / 10⟩ ⟨2, 2⟩ = (true, moved) := by
  obtain ⟨factor, large, found⟩ := ray?_ahead
  have steep : ¬ Scalar.abs (-9999 / 100 * factor) < 1e-6 := by
    change ¬ |(-9999 / 100 : ℝ) * factor| < 1e-6
    rw [abs_of_neg (by linarith)]
    norm_num at large ⊢
    linarith
  have before : 0 ≤ ((0 : ℝ) - 99 / 100) / (-9999 / 100 * factor) :=
    div_nonneg_of_nonpos (by norm_num) (by linarith)
  have hit : Ray.hitPlane?
      ⟨⟨0, 99 / 100, 99 / 10⟩, (⟨0, -9999 / 100, -9999 / 10⟩ : Vec3 ℝ) * factor⟩ groundHeight =
      some ((0 - 99 / 100) / (-9999 / 100 * factor)) := by
    rw [Ray.hitPlane?, Vec3.mul_y, if_neg steep]
    exact if_pos before
  exact ⟨_, moveActor_eq_true_iff.mpr ⟨_, _, found, hit, rfl⟩⟩

theorem rays_undo_projections_ahead :
    (ahead.camera.view ⟨2, 2⟩).project? ⟨0, 0, 0⟩ = some ⟨1, 11 / 10⟩ ∧
      ahead.moveActor ⟨1, 11 / 10⟩ ⟨2, 2⟩ = (true, { ahead with actor := ⟨0, 0, 0⟩ }) := by
  obtain ⟨moved, moves⟩ := moveActor_ahead
  obtain rfl := rays_undo_projections.2 ahead moved ⟨1, 11 / 10⟩ ⟨2, 2⟩ ⟨0, 0, 0⟩ rfl project?_ahead
    moves
  exact ⟨project?_ahead, moves⟩

end Viewer

end Grove
