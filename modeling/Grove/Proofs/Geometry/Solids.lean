import Grove.Proofs.Geometry.Crossings
import Grove.Proofs.Linear.Vector

/-!
# Rays and solids

In exact arithmetic a ray that starts outside the unit ball or the unit cylinder is found to meet it
where it first does, and a ray that starts inside is found to leave it where it does.

The cylinder is the wall, which bounds it to the sides, and the band between the two caps. The
parameters that are tried for it are the ends of the wall in the band and the ends of the band in
the wall. Both are told only for directions that are not nearly, but not quite, along the axis or
across it.
-/

set_option autoImplicit false

namespace Grove

theorem Vec3.lengthSquared_pos {vector : Vec3 ℝ} (nonzero : vector ≠ .zero) :
    0 < vector.lengthSquared := by
  rw [lengthSquared_eq]
  have first := mul_self_nonneg vector.x
  have second := mul_self_nonneg vector.y
  have third := mul_self_nonneg vector.z
  refine lt_of_le_of_ne (by positivity) fun vanishes => nonzero ?_
  ext
  · exact mul_self_eq_zero.mp (by linarith)
  · exact mul_self_eq_zero.mp (by linarith)
  · exact mul_self_eq_zero.mp (by linarith)

/-! ## Solids -/

def unitBall : Set (Vec3 ℝ) :=
  {point | point.lengthSquared ≤ 1}

/-- The ball without its surface. -/
def unitBallCore : Set (Vec3 ℝ) :=
  {point | point.lengthSquared < 1}

/-- The cylinder of radius one and height one about the vertical axis. -/
def unitCylinder : Set (Vec3 ℝ) :=
  {point | point.x * point.x + point.z * point.z ≤ 1 ∧ |point.y| ≤ 0.5}

/-- The cylinder without its surface. -/
def unitCylinderCore : Set (Vec3 ℝ) :=
  {point | point.x * point.x + point.z * point.z < 1 ∧ |point.y| < 0.5}

namespace Ray

variable (ray : Ray ℝ)

@[simp] theorem point_x (parameter : ℝ) :
    (ray.point parameter).x = ray.origin.x + ray.direction.x * parameter :=
  rfl

@[simp] theorem point_y (parameter : ℝ) :
    (ray.point parameter).y = ray.origin.y + ray.direction.y * parameter :=
  rfl

@[simp] theorem point_z (parameter : ℝ) :
    (ray.point parameter).z = ray.origin.z + ray.direction.z * parameter :=
  rfl

/-- What has been found of a ray is where it meets a solid, or where it leaves the solid if it
starts well inside. -/
structure Finds (solid core : Set (Vec3 ℝ)) (found : Option ℝ) : Prop where
  entry : ray.origin ∉ solid →
    LeastOf {parameter | 0 ≤ parameter ∧ ray.point parameter ∈ solid} found
  leave : ray.origin ∈ core → ∃ leave, found = some leave ∧ 0 < leave ∧
    ∀ parameter, 0 ≤ parameter → (ray.point parameter ∈ solid ↔ parameter ≤ leave)

theorem point_zero : ray.point 0 = ray.origin := by
  ext <;> simp

/-- The parameters tried for a solid are the ends of the part of the ray that is inside. -/
theorem finds_of_ends {solid core : Set (Vec3 ℝ)} {ends : List ℝ}
    (ended : Ends {parameter | ray.point parameter ∈ solid} {parameter | parameter ∈ ends})
    (bounded : BddAbove {parameter | ray.point parameter ∈ solid}) (inner : core ⊆ solid)
    (opened : IsOpen {parameter | ray.point parameter ∈ core}) :
    ray.Finds solid core (ends.foldl nearer none) where
  entry outside := by
    refine ended.leastOf_inside (fun inside => outside ?_) (leastOf_foldl_nearer ends)
    rwa [Set.mem_ofPred_eq, point_zero] at inside
  leave inside := by
    refine ended.exists_leave (Filter.mem_of_superset (opened.mem_nhds ?_) fun _ => @inner _)
      bounded (leastOf_foldl_nearer ends)
    rwa [Set.mem_ofPred_eq, point_zero]

/-! ## The ball -/

/-- The squared distance of a point of a line from the centre is that of the closest point, and
grows with the square of the way from there. -/
theorem lengthSquared_along {origin direction : Vec3 ℝ} {closest : ℝ}
    (nearest : direction.lengthSquared * closest = -origin.dot direction) (parameter : ℝ) :
    (origin + direction * parameter).lengthSquared =
      (origin + direction * closest).lengthSquared +
        direction.lengthSquared * (parameter - closest) ^ 2 := by
  simp only [Vec3.lengthSquared_eq, Vec3.dot_eq, Vec3.add_x, Vec3.add_y, Vec3.add_z, Vec3.mul_x,
    Vec3.mul_y, Vec3.mul_z] at nearest ⊢
  linear_combination 2 * (parameter - closest) * nearest

private theorem ballRoots?_cases (origin : Vec3 ℝ) {direction : Vec3 ℝ}
    (moving : 0 < direction.lengthSquared) :
    (ballRoots? origin direction = none ∧
      ∀ parameter : ℝ, 1 < (origin + direction * parameter).lengthSquared) ∨
    ∃ first second, ballRoots? origin direction = some (first, second) ∧ first ≤ second ∧
      ∀ parameter : ℝ, (origin + direction * parameter).lengthSquared ≤ 1 ↔
        parameter ∈ Set.Icc first second := by
  have along := lengthSquared_along (mul_div_cancel₀ (-origin.dot direction) moving.ne')
  unfold ballRoots?
  dsimp only
  rw [if_neg moving.not_ge]
  generalize -origin.dot direction / direction.lengthSquared = closest at along ⊢
  generalize (origin + direction * closest).lengthSquared = near at along ⊢
  by_cases missed : 1 - near < 0
  · rw [if_pos missed]
    refine .inl ⟨rfl, fun parameter => ?_⟩
    rw [along]
    nlinarith [mul_nonneg moving.le (sq_nonneg (parameter - closest))]
  · rw [if_neg missed]
    have room : 0 ≤ (1 - near) / direction.lengthSquared :=
      div_nonneg (not_lt.mp missed) moving.le
    refine .inr ⟨_, _, rfl, ?_, fun parameter => ?_⟩
    · have := Real.sqrt_nonneg ((1 - near) / direction.lengthSquared)
      change _ - √_ ≤ _ + √_
      linarith
    · change _ ↔ _ - √_ ≤ _ ∧ _ ≤ _ + √_
      rw [along, ← le_sub_iff_add_le', ← le_div_iff₀' moving, Real.sq_le room]
      constructor <;> rintro ⟨_, _⟩ <;> constructor <;> linarith

/-- The parameters at which a line crosses the unit sphere. -/
noncomputable def ballEnds (origin direction : Vec3 ℝ) : List ℝ :=
  match ballRoots? origin direction with
  | none => []
  | some (first, second) => [first, second]

private theorem ends_ballEnds (origin : Vec3 ℝ) {direction : Vec3 ℝ}
    (moving : 0 < direction.lengthSquared) :
    Ends {parameter : ℝ | (origin + direction * parameter).lengthSquared ≤ 1}
        {parameter | parameter ∈ ballEnds origin direction} ∧
      BddAbove {parameter : ℝ | (origin + direction * parameter).lengthSquared ≤ 1} := by
  unfold ballEnds
  rcases ballRoots?_cases origin moving with
    ⟨none, outside⟩ | ⟨first, second, found, ordered, inside⟩
  · have nowhere : {parameter : ℝ | (origin + direction * parameter).lengthSquared ≤ 1} = ∅ :=
      Set.eq_empty_of_forall_notMem fun parameter => (outside parameter).not_ge
    rw [none, nowhere]
    simpa using Ends.empty
  · have interval : {parameter : ℝ | (origin + direction * parameter).lengthSquared ≤ 1} =
        Set.uIcc first second := by
      rw [Set.uIcc_of_le ordered]
      exact Set.ext inside
    rw [found, interval]
    refine ⟨?_, bddAbove_Icc⟩
    convert Ends.uIcc first second using 1
    ext parameter
    simp

private theorem hitSphere?_eq (moving : 0 < ray.direction.lengthSquared) :
    ray.hitSphere? = (ballEnds ray.origin ray.direction).foldl nearer none := by
  unfold hitSphere? ballEnds
  rcases ballRoots?_cases ray.origin moving with
    ⟨none, -⟩ | ⟨first, second, found, ordered, -⟩
  · rw [none]
    rfl
  · rw [found]
    simp only [List.foldl_cons, List.foldl_nil, nearer]
    by_cases ahead : 0 ≤ first
    · simp [ahead, ahead.trans ordered, ordered]
    · simp [ahead]

theorem finds_hitSphere? (moving : 0 < ray.direction.lengthSquared) :
    ray.Finds unitBall unitBallCore ray.hitSphere? := by
  obtain ⟨ended, bounded⟩ := ends_ballEnds ray.origin moving
  rw [ray.hitSphere?_eq moving]
  refine ray.finds_of_ends ended bounded (fun point => le_of_lt (α := ℝ)) ?_
  simp only [unitBallCore, Set.mem_ofPred_eq, Vec3.lengthSquared_eq, point_x, point_y, point_z]
  exact isOpen_lt (by fun_prop) continuous_const

/-! ## The cylinder -/

/-- The parameters between the walls of the cylinder. -/
def wall : Set ℝ :=
  {parameter | (ray.point parameter).x * (ray.point parameter).x +
    (ray.point parameter).z * (ray.point parameter).z ≤ 1}

/-- The parameters between the caps of the cylinder. -/
def band : Set ℝ :=
  {parameter | |(ray.point parameter).y| ≤ 0.5}

noncomputable def wallEnds : List ℝ :=
  if 1e-12 < ray.direction.x * ray.direction.x + ray.direction.z * ray.direction.z then
    ballEnds ray.origin.horizontal ray.direction.horizontal
  else []

noncomputable def bandEnds : List ℝ :=
  if 1e-12 < |ray.direction.y| then
    [(-0.5 - ray.origin.y) / ray.direction.y, (0.5 - ray.origin.y) / ray.direction.y]
  else []

/-- A direction that is along the axis of the cylinder or far enough from it, and across the axis or
far enough from that. -/
structure Clear : Prop where
  wide : ray.direction.x * ray.direction.x + ray.direction.z * ray.direction.z = 0 ∨
    1e-12 < ray.direction.x * ray.direction.x + ray.direction.z * ray.direction.z
  steep : |ray.direction.y| = 0 ∨ 1e-12 < |ray.direction.y|

private theorem lengthSquared_horizontal (vector : Vec3 ℝ) :
    vector.horizontal.lengthSquared = vector.x * vector.x + vector.z * vector.z := by
  simp only [Vec3.lengthSquared_eq, Vec3.horizontal]
  ring

private theorem wall_eq : ray.wall =
    {parameter : ℝ | (ray.origin.horizontal + ray.direction.horizontal * parameter).lengthSquared ≤
      1} := by
  ext parameter
  simp only [wall, Set.mem_ofPred_eq, point_x, point_z, Vec3.lengthSquared_eq, Vec3.horizontal,
    Vec3.add_x, Vec3.add_y, Vec3.add_z, Vec3.mul_x, Vec3.mul_y, Vec3.mul_z]
  ring_nf

private theorem ends_wallEnds_of_lt
    (across : 1e-12 < ray.direction.x * ray.direction.x + ray.direction.z * ray.direction.z) :
    Ends ray.wall {parameter | parameter ∈ ray.wallEnds} := by
  unfold wallEnds
  rw [if_pos across, wall_eq]
  refine (ends_ballEnds _ ?_).1
  rw [lengthSquared_horizontal]
  exact lt_trans (by norm_num) across

private theorem ends_wallEnds (clear : ray.Clear) :
    Ends ray.wall {parameter | parameter ∈ ray.wallEnds} := by
  rcases clear.wide with along | across
  · have still : ray.direction.x = 0 ∧ ray.direction.z = 0 := mul_self_add_mul_self_eq_zero.mp along
    unfold wallEnds
    rw [if_neg (by rw [along]; norm_num)]
    by_cases inside : ray.origin.x * ray.origin.x + ray.origin.z * ray.origin.z ≤ 1
    · simpa [wall, still, inside] using Ends.univ
    · simpa [wall, still, inside] using Ends.empty
  · exact ray.ends_wallEnds_of_lt across

private theorem mem_wall_of_mem_wallEnds {parameter : ℝ} (isEnd : parameter ∈ ray.wallEnds) :
    parameter ∈ ray.wall := by
  by_cases across : 1e-12 < ray.direction.x * ray.direction.x + ray.direction.z * ray.direction.z
  · exact (ray.ends_wallEnds_of_lt across).mem parameter isEnd
  · simp [wallEnds, if_neg across] at isEnd

private theorem bddAbove_wall
    (across : 0 < ray.direction.x * ray.direction.x + ray.direction.z * ray.direction.z) :
    BddAbove ray.wall := by
  rw [wall_eq]
  exact (ends_ballEnds _ (by rwa [lengthSquared_horizontal])).2

private theorem band_eq_uIcc (rising : ray.direction.y ≠ 0) :
    ray.band = Set.uIcc ((-0.5 - ray.origin.y) / ray.direction.y)
      ((0.5 - ray.origin.y) / ray.direction.y) := by
  ext parameter
  simp only [band, Set.mem_ofPred_eq, point_y, abs_le]
  rcases lt_or_gt_of_ne rising with down | up
  · rw [Set.uIcc_of_ge (div_le_div_of_nonpos_of_le down.le (by linarith)), Set.mem_Icc,
      div_le_iff_of_neg down, le_div_iff_of_neg down]
    constructor <;> rintro ⟨_, _⟩ <;> constructor <;> linarith
  · rw [Set.uIcc_of_le (div_le_div_of_nonneg_right (by linarith) up.le), Set.mem_Icc,
      div_le_iff₀ up, le_div_iff₀ up]
    constructor <;> rintro ⟨_, _⟩ <;> constructor <;> linarith

private theorem ends_bandEnds_of_lt (rising : 1e-12 < |ray.direction.y|) :
    Ends ray.band {parameter | parameter ∈ ray.bandEnds} := by
  unfold bandEnds
  rw [if_pos rising, band_eq_uIcc ray (abs_pos.mp (lt_trans (by norm_num) rising))]
  convert Ends.uIcc _ _ using 1
  ext parameter
  simp

private theorem ends_bandEnds (clear : ray.Clear) :
    Ends ray.band {parameter | parameter ∈ ray.bandEnds} := by
  rcases clear.steep with level | rising
  · unfold bandEnds
    rw [if_neg (by rw [level]; norm_num)]
    rw [abs_eq_zero] at level
    by_cases inside : |ray.origin.y| ≤ 0.5
    · have everywhere : ray.band = Set.univ :=
        Set.eq_univ_of_forall fun parameter => by simpa [band, level] using inside
      simpa [everywhere] using Ends.univ
    · have nowhere : ray.band = ∅ :=
        Set.eq_empty_of_forall_notMem fun parameter => by simpa [band, level] using inside
      simpa [nowhere] using Ends.empty
  · exact ray.ends_bandEnds_of_lt rising

private theorem mem_band_of_mem_bandEnds {parameter : ℝ} (isEnd : parameter ∈ ray.bandEnds) :
    parameter ∈ ray.band := by
  by_cases rising : 1e-12 < |ray.direction.y|
  · exact (ray.ends_bandEnds_of_lt rising).mem parameter isEnd
  · simp [bandEnds, if_neg rising] at isEnd

private theorem mem_sideHits_iff {parameter : ℝ} :
    parameter ∈ ray.sideHits ↔ parameter ∈ ray.wallEnds ∧ parameter ∈ ray.band := by
  unfold sideHits wallEnds ballEnds
  dsimp only
  split
  · cases ballRoots? ray.origin.horizontal ray.direction.horizontal with
    | none => simp
    | some roots => simp [band, abs_le]
  · simp

private theorem mem_capHits_iff {parameter : ℝ} :
    parameter ∈ ray.capHits ↔ parameter ∈ ray.bandEnds ∧ parameter ∈ ray.wall := by
  by_cases rising : 1e-12 < |ray.direction.y|
  · have entered : 1e-12 < Scalar.abs ray.direction.y := rising
    simp only [capHits, bandEnds, if_pos entered, if_pos rising, wall, point_x, point_z,
      List.mem_filterMap, List.mem_cons, List.not_mem_nil, or_false, exists_eq_or_imp,
      exists_eq_left, Vec3.add_x, Vec3.add_z, Vec3.mul_x, Vec3.mul_z, Set.mem_ofPred_eq,
      Option.ite_none_right_eq_some, Option.some.injEq]
    constructor
    · rintro (⟨inside, rfl⟩ | ⟨inside, rfl⟩)
      · exact ⟨.inl rfl, inside⟩
      · exact ⟨.inr rfl, inside⟩
    · rintro ⟨rfl | rfl, inside⟩
      · exact .inl ⟨inside, rfl⟩
      · exact .inr ⟨inside, rfl⟩
  · have skipped : ¬1e-12 < Scalar.abs ray.direction.y := rising
    simp [capHits, bandEnds, if_neg skipped, if_neg rising]

private theorem bddAbove_cylinder (moving : 0 < ray.direction.lengthSquared) :
    BddAbove {parameter | ray.point parameter ∈ unitCylinder} := by
  by_cases level : ray.direction.y = 0
  · refine (ray.bddAbove_wall ?_).mono fun parameter inside => inside.1
    simpa [Vec3.lengthSquared_eq, level] using moving
  · have interval := ray.band_eq_uIcc level
    have bounded : BddAbove ray.band := interval ▸ bddAbove_Icc
    exact bounded.mono fun parameter inside => inside.2

theorem finds_hitCylinder? (moving : 0 < ray.direction.lengthSquared) (clear : ray.Clear) :
    ray.Finds unitCylinder unitCylinderCore ray.hitCylinder? := by
  have tried : {parameter | parameter ∈ ray.sideHits ++ ray.capHits} =
      {parameter | parameter ∈ ray.wallEnds} ∩ ray.band ∪
        {parameter | parameter ∈ ray.bandEnds} ∩ ray.wall := by
    ext parameter
    simp only [Set.mem_ofPred_eq, List.mem_append, mem_sideHits_iff, mem_capHits_iff,
      Set.mem_union, Set.mem_inter_iff]
  refine ray.finds_of_ends ?_ (ray.bddAbove_cylinder moving) ?_ ?_
  · rw [tried]
    exact (ray.ends_wallEnds clear).inter (ray.ends_bandEnds clear)
  · exact fun point inside => ⟨inside.1.le, inside.2.le⟩
  · simp only [unitCylinderCore, Set.mem_ofPred_eq, point_x, point_y, point_z]
    exact .and (isOpen_lt (by fun_prop) continuous_const)
      (isOpen_lt (by fun_prop) continuous_const)

/-- A direction that is short in the coordinates of the cylinder meets nothing, wherever it comes
from. -/
theorem hitCylinder?_eq_none
    (short : ray.direction.x * ray.direction.x + ray.direction.z * ray.direction.z ≤ 1e-12)
    (flat : |ray.direction.y| ≤ 1e-12) : ray.hitCylinder? = none := by
  have sides : ray.sideHits = [] := if_neg (not_lt.mpr short)
  have caps : ray.capHits = [] := if_neg (not_lt.mpr flat)
  rw [hitCylinder?, sides, caps]
  rfl

/-! ## Both -/

private theorem mem_of_foldl_nearer {parameters : List ℝ} {parameter : ℝ}
    (found : parameters.foldl nearer none = some parameter) :
    parameter ∈ parameters ∧ 0 ≤ parameter := by
  have least := leastOf_foldl_nearer parameters
  rw [found] at least
  exact least.1

/-- Whatever is found of a ray in motion is a point of the ball. -/
theorem point_mem_of_hitSphere? (moving : 0 < ray.direction.lengthSquared) {parameter : ℝ}
    (found : ray.hitSphere? = some parameter) :
    0 ≤ parameter ∧ ray.point parameter ∈ unitBall := by
  rw [ray.hitSphere?_eq moving] at found
  obtain ⟨member, ahead⟩ := mem_of_foldl_nearer found
  exact ⟨ahead, (ends_ballEnds ray.origin moving).1.mem parameter member⟩

/-- Whatever is found of a ray is a point of the cylinder, however close the ray is to the axis or
to going across it. -/
theorem point_mem_of_hitCylinder? {parameter : ℝ} (found : ray.hitCylinder? = some parameter) :
    0 ≤ parameter ∧ ray.point parameter ∈ unitCylinder := by
  obtain ⟨member, ahead⟩ := mem_of_foldl_nearer found
  refine ⟨ahead, ?_⟩
  rcases List.mem_append.mp member with side | cap
  · obtain ⟨isEnd, inBand⟩ := ray.mem_sideHits_iff.mp side
    exact ⟨ray.mem_wall_of_mem_wallEnds isEnd, inBand⟩
  · obtain ⟨isEnd, inWall⟩ := ray.mem_capHits_iff.mp cap
    exact ⟨inWall, ray.mem_band_of_mem_bandEnds isEnd⟩

/-- Of a ray that goes anywhere it is found where it meets or leaves the ball, and, unless it goes
almost along the axis or almost across it, where it meets or leaves the cylinder. -/
theorem finds_of_moving (moving : ray.direction ≠ .zero) :
    ray.Finds unitBall unitBallCore ray.hitSphere? ∧
      (ray.Clear → ray.Finds unitCylinder unitCylinderCore ray.hitCylinder?) :=
  ⟨ray.finds_hitSphere? (Vec3.lengthSquared_pos moving),
    ray.finds_hitCylinder? (Vec3.lengthSquared_pos moving)⟩

theorem finds_of_moving_across :
    let ray : Ray ℝ := ⟨⟨-5, 0, 0⟩, ⟨1, 0, 0⟩⟩
    ray.direction ≠ .zero ∧ ray.Clear ∧ ray.hitSphere? = some 4 ∧ ray.hitCylinder? = some 4 := by
  intro ray
  have moving : ray.direction ≠ .zero := fun same => one_ne_zero (congrArg Vec3.x same)
  have clear : ray.Clear := ⟨.inr (by norm_num [ray]), .inl (by simp [ray])⟩
  obtain ⟨ball, cylinder⟩ := ray.finds_of_moving moving
  refine ⟨moving, clear, (ball.entry ?_).eq_some ⟨⟨?_, ?_⟩, ?_⟩,
    ((cylinder clear).entry ?_).eq_some ⟨⟨?_, ?_⟩, ?_⟩⟩
  · norm_num [ray, unitBall, Vec3.lengthSquared_eq]
  · norm_num
  · norm_num [ray, unitBall, Vec3.lengthSquared_eq]
  · rintro parameter ⟨-, inside⟩
    simp only [ray, unitBall, Set.mem_ofPred_eq, Vec3.lengthSquared_eq, point_x, point_y,
      point_z] at inside
    nlinarith
  · norm_num [ray, unitCylinder]
  · norm_num
  · norm_num [ray, unitCylinder]
  · rintro parameter ⟨-, inside, -⟩
    simp only [ray, point_x, point_z] at inside
    nlinarith

end Ray

end Grove
