import Mathlib.Data.List.Induction
import Grove.Proofs.Geometry.Placed
import Grove.Instance.Renderer

/-!
# What the renderer reports

In exact arithmetic the renderer reports of the instances of a batch one that a ray meets first,
with the distance at which it does. What it reports is always there; that nothing is left out holds
for leaves of all sizes, and for branches that the ray is not almost along and not almost across,
measured by their radius and their length.

A branch that is thick enough has no such rays from the side: what is left of a direction of length
one in the coordinates of the branch is below the threshold of the side test.
-/

set_option autoImplicit false

namespace Grove

/-! ## Hits -/

theorem NearestOf.nearerHit {hits : Set (DrawnHit ℝ)} {best : Option (DrawnHit ℝ)}
    (nearest : NearestOf DrawnHit.distance hits best) (hit : DrawnHit ℝ) :
    NearestOf DrawnHit.distance (insert hit hits) (Renderer.nearerHit best hit) := by
  have kept := NearestOf.keep hit nearest
  cases best <;> exact kept

private theorem nearestOf_foldl_nearerHit (hits : List (DrawnHit ℝ)) :
    NearestOf DrawnHit.distance {hit | hit ∈ hits} (hits.foldl Renderer.nearerHit none) := by
  induction hits using List.reverseRecOn with
  | nil => simp [NearestOf]
  | append_singleton hits last induction =>
      rw [List.foldl_append, List.foldl_cons, List.foldl_nil]
      convert induction.nearerHit last using 1
      ext hit
      simp [or_comm]

namespace DrawBatch

/-- A batch shows an instance, and the instance is not skipped. -/
def Shows (drawn : DrawBatch ℝ) (skip : Nat → Bool) (index : Nat) (placement : Mat4 ℝ) : Prop :=
  drawn.instances[index]? = some placement ∧ skip index = false

/-- The part of the world that the instances of a batch take up, without those that are skipped. -/
def body (drawn : DrawBatch ℝ) (skip : Nat → Bool) : Set (Vec3 ℝ) :=
  {point | ∃ index placement, drawn.Shows skip index placement ∧
    point ∈ drawn.category.body placement}

/-- What the instances of a batch contribute to the hits of a ray. -/
noncomputable def hitAt? (drawn : DrawBatch ℝ) (ray : Ray ℝ) (skip : Nat → Bool)
    (entry : Mat4 ℝ × Nat) : Option (DrawnHit ℝ) :=
  if skip entry.2 then none else (drawn.category.hitPlaced? ray entry.1).map (⟨entry.2, ·⟩)

private theorem intersect?_eq_foldl {renderer : Renderer ℝ} {handle : Handle} {drawn : DrawBatch ℝ}
    (found : renderer.batch? handle = some drawn) (ray : Ray ℝ) (skip : Nat → Bool) :
    renderer.intersect? handle ray skip =
      (drawn.instances.toList.zipIdx.filterMap (drawn.hitAt? ray skip)).foldl
        Renderer.nearerHit none := by
  unfold Renderer.intersect?
  rw [found, Option.bind_some, ← Array.foldl_toList, Array.toList_zipIdx, List.foldl_filterMap]
  congr 1
  funext best entry
  obtain ⟨placement, index⟩ := entry
  cases skipped : skip index with
  | true => simp [hitAt?, skipped]
  | false => cases met : drawn.category.hitPlaced? ray placement <;> simp [hitAt?, skipped, met]

/-- What is reported of a batch is one of the nearest hits of the instances that it shows. -/
theorem nearestOf_intersect? {renderer : Renderer ℝ} {handle : Handle} {drawn : DrawBatch ℝ}
    (found : renderer.batch? handle = some drawn) (ray : Ray ℝ) (skip : Nat → Bool) :
    NearestOf DrawnHit.distance {hit | ∃ placement, drawn.Shows skip hit.index placement ∧
        drawn.category.hitPlaced? ray placement = some hit.distance}
      (renderer.intersect? handle ray skip) := by
  rw [intersect?_eq_foldl found]
  convert nearestOf_foldl_nearerHit _ using 1
  ext hit
  obtain ⟨index, distance⟩ := hit
  simp only [Set.mem_ofPred_eq, List.mem_filterMap, Prod.exists, List.mk_mem_zipIdx_iff_getElem?,
    Array.getElem?_toList]
  constructor
  · rintro ⟨placement, ⟨stored, kept⟩, met⟩
    exact ⟨placement, index, stored, by simp [hitAt?, kept, met]⟩
  · rintro ⟨placement, place, stored, contributed⟩
    unfold hitAt? at contributed
    cases skipped : skip place with
    | true => simp [skipped] at contributed
    | false =>
        rw [skipped, if_neg Bool.false_ne_true, Option.map_eq_some_iff] at contributed
        obtain ⟨_, met, same⟩ := contributed
        cases same
        exact ⟨placement, ⟨stored, skipped⟩, met⟩

end DrawBatch

/-! ## Distances -/

namespace Ray

variable {ray : Ray ℝ}

/-- How far it is along a ray to the points where it is in some part of the world. -/
def distancesTo (ray : Ray ℝ) (body : Set (Vec3 ℝ)) : Set ℝ :=
  {distance | ∃ parameter, 0 ≤ parameter ∧ ray.point parameter ∈ body ∧
    ray.origin.distance (ray.point parameter) = distance}

private theorem distance_point (unit : ray.direction.lengthSquared = 1) {parameter : ℝ}
    (ahead : 0 ≤ parameter) : ray.origin.distance (ray.point parameter) = parameter := by
  have squared : (ray.origin - ray.point parameter).lengthSquared = parameter ^ 2 := by
    rw [Vec3.lengthSquared_eq] at unit ⊢
    simp only [Vec3.sub_x, Vec3.sub_y, Vec3.sub_z, point_x, point_y, point_z]
    linear_combination parameter ^ 2 * unit
  change √(ray.origin - ray.point parameter).lengthSquared = parameter
  rw [squared, Real.sqrt_sq ahead]

private theorem mem_distancesTo_iff (unit : ray.direction.lengthSquared = 1) {body : Set (Vec3 ℝ)}
    {distance : ℝ} :
    distance ∈ ray.distancesTo body ↔ 0 ≤ distance ∧ ray.point distance ∈ body := by
  constructor
  · rintro ⟨parameter, ahead, inside, rfl⟩
    rw [distance_point unit ahead]
    exact ⟨ahead, inside⟩
  · rintro ⟨ahead, inside⟩
    exact ⟨distance, ahead, inside, distance_point unit ahead⟩

end Ray

namespace DrawBatch

/-- What is reported of a batch that draws branches or leaves, of a ray with a direction of length
one. -/
structure Reports (drawn : DrawBatch ℝ) (ray : Ray ℝ) (skip : Nat → Bool)
    (reported : Option (DrawnHit ℝ)) : Prop where
  /-- Whatever is reported is there. -/
  sound : (∀ index placement, drawn.Shows skip index placement →
      Placed drawn.category placement) →
    ∀ hit, reported = some hit → ∃ placement, drawn.Shows skip hit.index placement ∧
      hit.distance ∈ ray.distancesTo (drawn.category.body placement)
  /-- Of bodies that the ray does not start in, the nearest is reported, or there is none. -/
  least : (∀ index placement, drawn.Shows skip index placement →
      Placed drawn.category placement ∧ ray.origin ∉ drawn.category.body placement ∧
        (drawn.category = .branch → ray.ClearOf placement)) →
    LeastOf (ray.distancesTo (drawn.body skip)) (reported.map (·.distance))

/-- Where a ray is in the body of an instance, it is found to have met the instance before. -/
theorem exists_hit_le {drawn : DrawBatch ℝ} {ray : Ray ℝ} (unit : ray.direction.lengthSquared = 1)
    {skip : Nat → Bool}
    (least : ∀ index placement, drawn.Shows skip index placement →
      LeastOf {parameter | 0 ≤ parameter ∧ ray.point parameter ∈ drawn.category.body placement}
        (drawn.category.hitPlaced? ray placement))
    {distance : ℝ} (member : distance ∈ ray.distancesTo (drawn.body skip)) :
    ∃ hit : DrawnHit ℝ, (∃ placement, drawn.Shows skip hit.index placement ∧
      drawn.category.hitPlaced? ray placement = some hit.distance) ∧ hit.distance ≤ distance := by
  obtain ⟨ahead, index, placement, shown, inside⟩ := (Ray.mem_distancesTo_iff unit).mp member
  have least := least index placement shown
  cases met : drawn.category.hitPlaced? ray placement with
  | none =>
      rw [met] at least
      exact absurd (show distance ∈ (∅ : Set ℝ) from least ▸ ⟨ahead, inside⟩)
        (Set.notMem_empty distance)
  | some near =>
      rw [met] at least
      exact ⟨⟨index, near⟩, ⟨placement, shown, met⟩, least.2 ⟨ahead, inside⟩⟩

theorem reports_of_unit {renderer : Renderer ℝ} {handle : Handle} {drawn : DrawBatch ℝ}
    (found : renderer.batch? handle = some drawn) {ray : Ray ℝ}
    (unit : ray.direction.lengthSquared = 1) (skip : Nat → Bool) :
    drawn.Reports ray skip (renderer.intersect? handle ray skip) := by
  have moving : 0 < ray.direction.lengthSquared := unit ▸ zero_lt_one
  have nearest := nearestOf_intersect? found ray skip
  generalize renderer.intersect? handle ray skip = reported at nearest
  have sound (placed : ∀ index placement, drawn.Shows skip index placement →
      Placed drawn.category placement) (hit : DrawnHit ℝ) (same : reported = some hit) :
      ∃ placement, drawn.Shows skip hit.index placement ∧
        hit.distance ∈ ray.distancesTo (drawn.category.body placement) := by
    subst same
    obtain ⟨placement, shown, met⟩ := nearest.1
    refine ⟨placement, shown, (Ray.mem_distancesTo_iff unit).mpr ?_⟩
    exact Ray.point_mem_of_hitPlaced? (placed hit.index placement shown) moving met
  refine ⟨sound, fun clear => ?_⟩
  have least (index : Nat) (placement : Mat4 ℝ) (shown : drawn.Shows skip index placement) :=
    let ⟨placed, outside, far⟩ := clear index placement shown
    Ray.leastOf_hitPlaced? placed unit outside far
  cases reported with
  | none =>
      refine Set.eq_empty_of_forall_notMem fun distance member => ?_
      obtain ⟨hit, met, -⟩ := exists_hit_le unit least member
      exact absurd (show hit ∈ (∅ : Set (DrawnHit ℝ)) from nearest ▸ met)
        (Set.notMem_empty hit)
  | some best =>
      refine ⟨?_, fun distance member => ?_⟩
      · obtain ⟨placement, shown, ahead⟩ :=
          sound (fun index placement shown => (clear index placement shown).1) best rfl
        obtain ⟨ahead, inside⟩ := (Ray.mem_distancesTo_iff unit).mp ahead
        exact (Ray.mem_distancesTo_iff unit).mpr ⟨ahead, best.index, placement, shown, inside⟩
      · obtain ⟨hit, met, earlier⟩ := exists_hit_le unit least member
        exact (nearest.2 hit met).trans earlier

end DrawBatch

/-! ## Thick branches -/

/-- A ray across an upright branch, at half its height. -/
def Ray.across (start : ℝ) : Ray ℝ :=
  ⟨⟨start, 1, 0⟩, ⟨1, 0, 0⟩⟩

/-- An upright branch of length two. -/
noncomputable def Placement.pole (radius : ℝ) : Mat4 ℝ :=
  branch ⟨0, 0, 0⟩ ⟨0, 2.0, 0⟩ radius

theorem Placement.pole_eq (radius : ℝ) :
    pole radius = .place ⟨radius, 2, radius⟩ .identity ⟨0, 1, 0⟩ := by
  have upright := branch_upright ⟨0, 0, 0⟩ 2 (by norm_num [shortestSegment]) radius
  norm_num [pole] at upright ⊢
  exact upright

theorem Placed.pole {radius : ℝ} (thick : 0 < radius) : Placed .branch (Placement.pole radius) :=
  .branch _ _ thick

private theorem mem_body_pole_iff {radius : ℝ} (thick : 0 < radius) (point : Vec3 ℝ) :
    point ∈ Category.branch.body (Placement.pole radius) ↔
      point.x ^ 2 + point.z ^ 2 ≤ radius ^ 2 ∧ 0 ≤ point.y ∧ point.y ≤ 2 := by
  have upright := mem_body_upright_iff ⟨0, 0, 0⟩ 2
    (by norm_num [Placement.shortestSegment]) thick point
  norm_num [Placement.pole] at upright ⊢
  exact upright

theorem Ray.toLocal?_across {radius : ℝ} (thick : 0 < radius) (start : ℝ) :
    (Ray.across start).toLocal? (Placement.pole radius) =
      some ⟨⟨start / radius, 0, 0⟩, ⟨1 / radius, 0, 0⟩⟩ := by
  rw [toLocal?_eq_some_iff (Placed.pole thick).regular, Placement.pole_eq,
    Mat4.place_identity_transformPoint, Mat4.place_identity_transformVector]
  constructor
  · ext <;> simp [Ray.across, thick.ne', mul_div_cancel₀]
  · ext <;> simp [Ray.across, thick.ne']

theorem Ray.unit_across (start : ℝ) : (Ray.across start).direction.lengthSquared = 1 := by
  norm_num [across, Vec3.lengthSquared_eq]

/-- A ray across meets a pole from one radius before the centre to one radius behind it. -/
theorem point_across_mem_iff {radius : ℝ} (thick : 0 < radius) (start parameter : ℝ) :
    (Ray.across start).point parameter ∈ Category.branch.body (Placement.pole radius) ↔
      (start + parameter) ^ 2 ≤ radius ^ 2 := by
  rw [mem_body_pole_iff thick]
  norm_num [Ray.across]

namespace DrawBatch

theorem Shows.of_singleton {category : Category} {only placement : Mat4 ℝ} {changed : Bool}
    {skip : Nat → Bool} {index : Nat}
    (shown : Shows ⟨category, #[only], changed⟩ skip index placement) : placement = only := by
  obtain ⟨stored, -⟩ := shown
  cases index with
  | zero => exact (Option.some.inj stored).symm
  | succ index => cases stored

/-- A pole of radius one is reported four away from a ray that starts five away from its axis. -/
theorem reports_of_unit_pole :
    let renderer : Renderer ℝ := ⟨#[⟨.branch, #[Placement.pole 1], true⟩]⟩
    let ray := Ray.across (-5)
    ray.direction.lengthSquared = 1 ∧
      renderer.batch? ⟨0⟩ = some ⟨.branch, #[Placement.pole 1], true⟩ ∧
      (renderer.intersect? ⟨0⟩ ray fun _ => false).map (·.distance) = some 4 := by
  intro renderer ray
  have found : renderer.batch? ⟨0⟩ = some ⟨.branch, #[Placement.pole 1], true⟩ := rfl
  have reports := reports_of_unit found (Ray.unit_across (-5)) fun _ => false
  refine ⟨Ray.unit_across (-5), found, (reports.least ?_).eq_some ⟨?_, ?_⟩⟩
  · intro index placement shown
    cases shown.of_singleton
    refine ⟨.pole one_pos, ?_, fun _ => ?_⟩
    · rw [← Ray.point_zero, point_across_mem_iff one_pos]
      norm_num
    · refine (Ray.clear_iff_clearOf one_pos (Ray.unit_across (-5))
        (Ray.toLocal?_across one_pos (-5))).mp ⟨.inr ?_, .inl ?_⟩ <;> norm_num
  · refine (Ray.mem_distancesTo_iff (Ray.unit_across (-5))).mpr
      ⟨by norm_num, 0, Placement.pole 1, ⟨rfl, rfl⟩, ?_⟩
    rw [point_across_mem_iff one_pos]
    norm_num
  · intro distance member
    obtain ⟨-, index, placement, shown, inside⟩ :=
      (Ray.mem_distancesTo_iff (Ray.unit_across (-5))).mp member
    cases shown.of_singleton
    rw [point_across_mem_iff one_pos] at inside
    nlinarith

end DrawBatch

/-- A pole with a radius of a million or more is not met by any ray across, wherever the ray starts:
in the coordinates of the pole the direction is too short for the side to be tried. -/
theorem hitPlaced?_across_eq_none {radius : ℝ} (thick : 1000000 ≤ radius) (start : ℝ) :
    Category.branch.hitPlaced? (Ray.across start) (Placement.pole radius) = none := by
  have positive : 0 < radius := lt_of_lt_of_le (by norm_num) thick
  have short : 1 / radius ≤ 1e-6 := by
    rw [div_le_iff₀ positive]
    linarith
  have shown : 0 ≤ 1 / radius := by positivity
  rw [Category.hitPlaced?, Ray.toLocal?_across positive, Option.bind_some]
  refine Ray.hitCylinder?_eq_none _ ?_ ?_
  · dsimp only
    nlinarith
  · norm_num

namespace DrawBatch

/-- Not all branches are reported that a ray meets. A pole with a radius of two million is not, by a
ray that starts outside it and meets it three million away. -/
theorem thick_pole_unreported :
    let renderer : Renderer ℝ := ⟨#[⟨.branch, #[Placement.pole 2000000], true⟩]⟩
    let ray := Ray.across (-5000000)
    Placed .branch (Placement.pole 2000000) ∧ ray.direction.lengthSquared = 1 ∧
      ray.origin ∉ Category.branch.body (Placement.pole 2000000) ∧
      ray.point 3000000 ∈ Category.branch.body (Placement.pole 2000000) ∧
      renderer.intersect? ⟨0⟩ ray (fun _ => false) = none := by
  intro renderer ray
  have thick : (0 : ℝ) < 2000000 := by norm_num
  refine ⟨.pole thick, Ray.unit_across _, ?_, ?_, ?_⟩
  · rw [← Ray.point_zero, point_across_mem_iff thick]
    norm_num
  · rw [point_across_mem_iff thick]
    norm_num
  · have found : renderer.batch? ⟨0⟩ = some ⟨.branch, #[Placement.pole 2000000], true⟩ := rfl
    have missed : Category.branch.hitPlaced? ray (Placement.pole 2000000) = none :=
      hitPlaced?_across_eq_none (by norm_num) (-5000000)
    rw [intersect?_eq_foldl found]
    simp [hitAt?, missed]

end DrawBatch

end Grove
