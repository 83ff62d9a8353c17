import Grove.Proofs.Forest.Sound
import Grove.Proofs.Instance.FirstHit

/-!
# Picking trees

All that planting and falling do to a registry is to add slots, to build, to move the slots of trees
and to flush. So what holds of displays holds of scenes, and the tree seen at a screen point is the
owner of the slot that its ray meets first, looking through felled trees.
-/

set_option autoImplicit false

namespace Grove

/-- Some steps lead to a display from an empty registry. -/
def Display.Reached {α : Type} [Scalar α] (display : Display α) : Prop :=
  ∃ renderer steps, display = Display.run { renderer } steps

variable {α σ : Type} [Scalar α]

namespace Display.Reached

private theorem empty (renderer : Renderer α) : Display.Reached { renderer } :=
  ⟨renderer, [], rfl⟩

private theorem step {display : Display α} (reached : display.Reached) (step : DisplayStep α) :
    (display.step step).Reached := by
  obtain ⟨renderer, steps, rfl⟩ := reached
  exact ⟨renderer, steps ++ [step], (run_concat _ steps step).symm⟩

private theorem addAll {registry : Registry α} {renderer : Renderer α}
    (reached : Display.Reached { registry, renderer }) (category : Category)
    (placements : Array (Mat4 α)) (owner : TreeId) :
    Display.Reached { registry := registry.addAll category placements owner, renderer } :=
  Registry.addAll_invariant (fun registry => Display.Reached { registry, renderer }) category
    (fun _ placement reached => reached.step (.add category placement owner)) placements reached

private theorem advanceTree {stand : Stand α} {renderer : Renderer α}
    (reached : Display.Reached { registry := stand.registry, renderer }) (time : α)
    (id : TreeId) :
    Display.Reached { registry := (stand.advanceTree time id).2.registry, renderer } := by
  rcases stand.falling_or_idle id with ⟨tree, fall, found, falling⟩ | idle
  · rw [Stand.advanceTree_of_falling found falling]
    exact reached.step (.moveOwned id ((fall.advance time).rotation tree.position * ·))
  · rw [Stand.advanceTree_of_not_falling idle]
    exact reached

private theorem advanceTrees {stand : Stand α} {renderer : Renderer α}
    (reached : Display.Reached { registry := stand.registry, renderer }) (time : α)
    (ids : List TreeId) :
    Display.Reached { registry := (stand.advanceTrees time ids).2.registry, renderer } := by
  induction ids generalizing stand with
  | nil => exact reached
  | cons id ids induction => exact induction (reached.advanceTree time id)

end Display.Reached

namespace Scene

def display (scene : Scene α) : Display α :=
  { registry := scene.population.registry, renderer := scene.renderer }

private theorem reached_step {scene : Scene α} (reached : scene.display.Reached)
    (step : ForestStep α) :
    (scene.step step).display.Reached := by
  cases step with
  | fell id reference =>
      rcases scene.population.standing_or_not id with ⟨tree, found, standing⟩ | down
      · rw [step_fell_of_standing found standing]
        exact reached
      · rw [step_fell_of_not_standing down]
        exact reached
  | update time =>
      rw [step_update]
      exact (reached.advanceTrees (scene.stepTime time) scene.population.animator.active).step
        .flush

theorem reached_run {scene : Scene α} (reached : scene.display.Reached)
    (steps : List (ForestStep α)) : (scene.run steps).display.Reached := by
  induction steps generalizing scene with
  | nil => exact reached
  | cons step steps induction => exact induction (reached_step reached step)

variable [Generator σ]

private theorem reached_plantAt {positions : List (Vec3 α)} {species : Species α}
    {felling : Felling α} {renderer : Renderer α} {stream rest : σ} {scene : Scene α}
    (planted : Population.plantAt positions species felling renderer stream =
      .ok ((scene.population, scene.renderer), rest)) : scene.display.Reached := by
  obtain ⟨stand, grown, population, drawn⟩ := Population.plantAt_eq_ok planted
  have reached : Display.Reached { registry := stand.registry, renderer } := by
    refine Sampling.foldlM_invariant
      (fun stand => Display.Reached { registry := stand.registry, renderer }) ?_ (.empty renderer)
      grown
    intro stand position stream planted rest reached run
    obtain ⟨branches, leaves, rfl⟩ := Stand.plant_eq_ok run
    exact (reached.addAll .branch branches stand.trees.size).addAll .leaf leaves stand.trees.size
  rw [display, population, drawn]
  exact reached.step .build

theorem Planted.reached {felling : Felling α} {scene : Scene α}
    (planted : scene.Planted σ felling) : scene.display.Reached := by
  cases planted with
  | plantAt planted => exact reached_plantAt planted
  | grow same planted =>
      unfold Population.grow at planted
      obtain ⟨positions, afterPositions, -, planted⟩ := Sampling.bind_eq_ok_iff.mp planted
      exact reached_plantAt planted

end Scene

/-! ## The tree seen at a screen point -/

omit [Scalar α] in
theorem Scene.pickable_eq_true_iff {scene : Scene α} {id : TreeId} :
    scene.population.pickable id = true ↔
      ∃ tree, scene.tree? id = some tree ∧ tree.phase.isFelled = false := by
  simp [Population.pickable, Population.tree?, tree?, Tree.pickable, Option.any_eq_true]

/-- A tree that is picked is one of the forest, and it is not felled. -/
theorem Scene.exists_of_pick? (scene : Scene α) {view : View α} {screen : Vec2 α} {id : TreeId}
    (picked : scene.population.pick? scene.renderer view screen = some id) :
    ∃ tree, scene.tree? id = some tree ∧ tree.phase.isFelled = false := by
  obtain ⟨ray, -, picked⟩ := Option.bind_eq_some_iff.mp picked
  obtain ⟨hit, met, same⟩ := Option.bind_eq_some_iff.mp picked
  cases same
  exact pickable_eq_true_iff.mp (Registry.pickable_of_firstHit? met)

namespace Scene

/-- A ray meets a slot of a tree that is not felled. -/
def Sees (scene : Scene Float32) (ray : Ray Float32) (hit : SlotHit Float32) : Prop :=
  (∃ tree, scene.tree? hit.owner = some tree ∧ tree.phase.isFelled = false) ∧
    scene.display.Meets ray (fun _ => true) hit

private theorem sees_iff {scene : Scene Float32} {ray : Ray Float32} {hit : SlotHit Float32} :
    scene.Sees ray hit ↔ scene.display.Meets ray scene.population.pickable hit := by
  rw [Sees, ← pickable_eq_true_iff]
  constructor
  · rintro ⟨standing, meets⟩
    exact meets.restrict standing
  · intro meets
    exact ⟨meets.pickable, meets.mono fun _ _ => rfl⟩

/-- What is picked at a screen point: nothing where no tree is seen, or else the owner of the first
of the nearest slots. -/
structure PicksNearest (scene : Scene Float32) (view : View Float32) (screen : Vec2 Float32) :
    Prop where
  none_iff : scene.population.pick? scene.renderer view screen = none ↔
    ∀ ray hit, view.ray? screen = some ray → ¬ scene.Sees ray hit
  nearest : ∀ id, scene.population.pick? scene.renderer view screen = some id →
    ∃ ray best, view.ray? screen = some ray ∧ best.owner = id ∧ scene.Sees ray best ∧
      ∀ other, scene.Sees ray other → best.distance ≤ other.distance ∧
        (other.distance ≤ best.distance → best = other ∨ best.Before other)

private theorem pick?_eq (scene : Scene Float32) (view : View Float32) (screen : Vec2 Float32) :
    scene.population.pick? scene.renderer view screen =
      (view.ray? screen).bind fun ray =>
        (scene.display.registry.firstHit? scene.display.renderer ray
          scene.population.pickable).map (·.owner) := by
  unfold Population.pick?
  congr 1
  funext ray
  exact Option.map_eq_bind.symm

private theorem picksNearest_of_reached {scene : Scene Float32} (reached : scene.display.Reached)
    (view : View Float32) (screen : Vec2 Float32) : scene.PicksNearest view screen := by
  have finds : ∀ ray, scene.display.FindsFirst ray scene.population.pickable := by
    intro ray
    obtain ⟨renderer, steps, same⟩ := reached
    exact same ▸ Display.findsFirst_run renderer steps ray _
  constructor
  · rw [pick?_eq]
    cases view.ray? screen with
    | none => simp
    | some ray =>
        simp only [Option.bind_some, Option.map_eq_none_iff, (finds ray).none_iff, sees_iff,
          Option.some.injEq]
        exact ⟨fun unseen other hit same => same ▸ unseen hit, fun unseen hit => unseen ray hit rfl⟩
  · intro id picked
    rw [pick?_eq] at picked
    obtain ⟨ray, aimed, picked⟩ := Option.bind_eq_some_iff.mp picked
    obtain ⟨best, found, owner⟩ := Option.map_eq_some_iff.mp picked
    refine ⟨ray, best, aimed, owner, sees_iff.mpr ((finds ray).meets best found).1, ?_⟩
    intro other seen
    have meets := sees_iff.mp seen
    exact ⟨(finds ray).nearest best other found meets, (finds ray).earliest best other found meets⟩

variable [Generator σ]

/-- Along every ray the first of the nearest slots is found, and at every screen point the tree that
owns it is picked. -/
theorem picking_of_run :
    (∀ (renderer : Renderer Float32) (steps : List (DisplayStep Float32)) (ray : Ray Float32)
      (pickable : TreeId → Bool), (Display.run { renderer } steps).FindsFirst ray pickable) ∧
    ∀ (felling : Felling Float32) (planted : Scene Float32), planted.Planted σ felling →
      ∀ (steps : List (ForestStep Float32)) (view : View Float32) (screen : Vec2 Float32),
        (planted.run steps).PicksNearest view screen :=
  ⟨Display.findsFirst_run, fun _ _ planted steps view screen =>
    picksNearest_of_reached (reached_run planted.reached steps) view screen⟩

/-- A ray that meets the pole, and a view of it. -/
theorem picking_of_run_pole :
    (Scene.pole.display.registry.firstHit? Scene.pole.renderer ⟨⟨0, 0.5, 5⟩, ⟨0, 0, -1⟩⟩
      Scene.pole.population.pickable).map (fun hit => (hit.category, hit.slot, hit.owner)) =
        some (.branch, 0, 0) ∧
    Scene.pole.Planted Cycle .standard ∧
      ∀ view screen, (Scene.pole.run []).PicksNearest view screen :=
  ⟨by decide +kernel, pole_planted, (@picking_of_run Cycle _).2 .standard Scene.pole pole_planted []⟩

end Scene

end Grove
