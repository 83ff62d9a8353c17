import Grove.Forest.Population
import Grove.Proofs.Forest.Stand
import Grove.Proofs.Random.Sampling

/-!
# Scenes

A scene is a planted forest together with the renderer that shows it. Trees are made to fall and
time passes, in any order; the scenes that planting makes are those in which nothing has happened
yet.
-/

set_option autoImplicit false

namespace Grove

/-- One thing that happens to a planted forest. -/
inductive ForestStep (α : Type) where
  | fell (id : TreeId) (reference : Vec3 α)
  | update (time : α)

structure Scene (α : Type) where
  population : Population α
  renderer : Renderer α

variable {α σ : Type}

namespace Scene

def tree? (scene : Scene α) (id : TreeId) : Option (Tree α) :=
  scene.population.stand.tree? id

def slot? (scene : Scene α) (category : Category) (slot : Nat) : Option (Slot α) :=
  scene.population.registry.slot? category slot

def uploaded? (scene : Scene α) (category : Category) (slot : Nat) : Option (Mat4 α) :=
  scene.population.registry.uploaded? scene.renderer category slot

variable [Scalar α]

def step (scene : Scene α) : ForestStep α → Scene α
  | .fell id reference => { scene with population := (scene.population.fell id reference).2 }
  | .update time =>
      let (population, renderer) := scene.population.update time scene.renderer
      { population, renderer }

def run (scene : Scene α) (steps : List (ForestStep α)) : Scene α :=
  steps.foldl step scene

theorem run_append (scene : Scene α) (earlier later : List (ForestStep α)) :
    scene.run (earlier ++ later) = (scene.run earlier).run later :=
  List.foldl_append

end Scene

variable [Scalar α] [Generator σ]

variable (σ) in
/-- The scenes that planting with the given felling makes, at given places or at random ones. -/
inductive Scene.Planted (felling : Felling α) : Scene α → Prop
  | plantAt {positions : List (Vec3 α)} {species : Species α} {renderer : Renderer α}
      {stream rest : σ} {scene : Scene α}
      (planted : Population.plantAt positions species felling renderer stream =
        .ok ((scene.population, scene.renderer), rest)) : Scene.Planted felling scene
  | grow {config : Configuration α} {ground : Ground α} {renderer : Renderer α}
      {stream rest : σ} {scene : Scene α} (same : config.felling = felling)
      (planted : Population.grow config ground renderer stream =
        .ok ((scene.population, scene.renderer), rest)) : Scene.Planted felling scene

/-- A stand in which nothing has fallen yet. -/
structure Stand.Upright (stand : Stand α) : Prop where
  trees : ∀ id tree, stand.tree? id = some tree → tree.id = id ∧ tree.phase = .standing
  consistent : stand.registry.Consistent
  slots : ∀ category slot content, stand.registry.slot? category slot = some content →
    content.live = content.base ∧ content.owner < stand.trees.size

namespace Stand

omit [Scalar α] in
theorem Upright.empty : ({} : Stand α).Upright where
  trees id tree found := by simp [tree?] at found
  consistent := Registry.Consistent.empty
  slots category slot content found := by
    cases category <;> simp [Registry.slot?, Registry.batch, Registry.empty, Batch.slot?] at found

omit [Scalar α] in
private theorem upright_addAll {registry : Registry α} {count : Nat} (category : Category)
    (placements : Array (Mat4 α)) (consistent : registry.Consistent)
    (slots : ∀ category slot content, registry.slot? category slot = some content →
      content.live = content.base ∧ content.owner < count + 1) :
    (registry.addAll category placements count).Consistent ∧
      ∀ other slot content,
        (registry.addAll category placements count).slot? other slot = some content →
          content.live = content.base ∧ content.owner < count + 1 := by
  refine Registry.addAll_invariant
    (fun registry => registry.Consistent ∧
      ∀ category slot content, registry.slot? category slot = some content →
        content.live = content.base ∧ content.owner < count + 1)
    category ?_ placements ⟨consistent, slots⟩
  intro registry placement invariant
  refine ⟨invariant.1.add category placement count, ?_⟩
  intro other slot content found
  unfold Registry.slot? at found
  rw [Registry.batch_add] at found
  split at found
  · rw [Batch.slot?_add] at found
    split at found
    · cases found
      exact ⟨rfl, Nat.lt_succ_self _⟩
    · exact invariant.2 other slot content found
  · exact invariant.2 other slot content found

theorem plant_eq_ok {stand planted : Stand α} {species : Species α} {position : Vec3 α}
    {stream rest : σ} (run : stand.plant species position stream = .ok (planted, rest)) :
    ∃ branches leaves,
      planted =
        { trees := stand.trees.push
            { id := stand.trees.size, position, trunkRadius := species.initialRadius }
          registry := (stand.registry.addAll .branch branches stand.trees.size).addAll .leaf
            leaves stand.trees.size } := by
  unfold plant at run
  obtain ⟨word, afterWord, -, run⟩ := Sampling.bind_eq_ok_iff.mp run
  obtain ⟨drawing, afterDrawing, -, run⟩ := Sampling.bind_eq_ok_iff.mp run
  cases Sampling.pure_eq_ok_iff.mp run
  exact ⟨drawing.branches, drawing.leaves, rfl⟩

theorem Upright.plant {stand planted : Stand α} (upright : stand.Upright) {species : Species α}
    {position : Vec3 α} {stream rest : σ}
    (run : stand.plant species position stream = .ok (planted, rest)) : planted.Upright := by
  obtain ⟨branches, leaves, rfl⟩ := plant_eq_ok run
  have older : ∀ category slot content, stand.registry.slot? category slot = some content →
      content.live = content.base ∧ content.owner < stand.trees.size + 1 := by
    intro category slot content found
    have old := upright.slots category slot content found
    exact ⟨old.1, Nat.lt_succ_of_lt old.2⟩
  obtain ⟨withBranches, branchSlots⟩ :=
    upright_addAll .branch branches upright.consistent older
  obtain ⟨withLeaves, slots⟩ := upright_addAll .leaf leaves withBranches branchSlots
  refine ⟨?_, withLeaves, ?_⟩
  · intro id tree found
    rw [tree?, Array.getElem?_push] at found
    split at found
    · rename_i last
      cases found
      exact ⟨last.symm, rfl⟩
    · exact upright.trees id tree found
  · intro category slot content found
    rw [Array.size_push]
    exact slots category slot content found

theorem upright_of_foldlM {positions : List (Vec3 α)} {species : Species α} {stand : Stand α}
    {stream rest : σ}
    (grown : positions.foldlM (Stand.plant species) {} stream = .ok (stand, rest)) :
    stand.Upright :=
  Sampling.foldlM_invariant Upright (fun _ _ _ _ _ upright run => upright.plant run) .empty grown

end Stand

/-- A scene in which nothing has fallen yet, as planting makes it. -/
structure Scene.Upright (scene : Scene α) (felling : Felling α) : Prop where
  stand : scene.population.stand.Upright
  built : scene.population.registry.Built scene.renderer
  shown : ∀ category slot content, scene.slot? category slot = some content →
    scene.uploaded? category slot = some content.live
  animator : scene.population.animator = { felling }

/-- Planting grows a stand from nothing, tree by tree, and builds its registry. -/
theorem Population.plantAt_eq_ok {positions : List (Vec3 α)} {species : Species α}
    {felling : Felling α} {renderer : Renderer α} {stream rest : σ}
    {population : Population α} {drawn : Renderer α}
    (planted : Population.plantAt positions species felling renderer stream =
      .ok ((population, drawn), rest)) :
    ∃ stand, positions.foldlM (Stand.plant species) {} stream = .ok (stand, rest) ∧
      population = ⟨{ stand with registry := (stand.registry.build renderer).1 }, { felling }⟩ ∧
      drawn = (stand.registry.build renderer).2 := by
  unfold Population.plantAt at planted
  obtain ⟨stand, between, grown, planted⟩ := Sampling.bind_eq_ok_iff.mp planted
  have same := Sampling.pure_eq_ok_iff.mp planted
  simp only [Prod.mk.injEq] at same
  obtain ⟨⟨population, drawn⟩, rfl⟩ := same
  exact ⟨stand, grown, population.symm, drawn.symm⟩

theorem Population.plantAt_upright {positions : List (Vec3 α)} {species : Species α}
    {felling : Felling α} {renderer : Renderer α} {stream rest : σ} {scene : Scene α}
    (planted : Population.plantAt positions species felling renderer stream =
      .ok ((scene.population, scene.renderer), rest)) : scene.Upright felling := by
  obtain ⟨stand, grown, population, drawn⟩ := Population.plantAt_eq_ok planted
  have upright := Stand.upright_of_foldlM grown
  have built := upright.consistent.build renderer
  have slots : ∀ category slot content,
      (stand.registry.build renderer).1.slot? category slot = some content →
        content.live = content.base ∧ content.owner < stand.trees.size := by
    intro category slot content found
    rw [Registry.slot?_build] at found
    obtain ⟨old, known, rfl⟩ := Option.map_eq_some_iff.mp found
    exact upright.slots category slot old known
  have shown : ∀ category slot content,
      (stand.registry.build renderer).1.slot? category slot = some content →
        (stand.registry.build renderer).1.uploaded? (stand.registry.build renderer).2 category
          slot = some content.live := by
    intro category slot content found
    obtain ⟨handle, known, uploaded⟩ := built.uploaded category
    obtain ⟨placement, stored, same⟩ := uploaded slot content found
    rw [Registry.slot?_build] at found
    obtain ⟨old, -, rfl⟩ := Option.map_eq_some_iff.mp found
    rw [Registry.uploaded?, known, Option.bind_some, stored, same rfl]
  obtain ⟨reached, renderer⟩ := scene
  dsimp only at population drawn
  subst population drawn
  exact ⟨⟨upright.trees, built.consistent, slots⟩, built, shown, rfl⟩

/-- Forests at random places are planted at the places that have been drawn. -/
theorem Scene.Planted.exists_plantAt {felling : Felling α} {scene : Scene α}
    (planted : scene.Planted σ felling) :
    ∃ (positions : List (Vec3 α)) (species : Species α) (renderer : Renderer α) (stream rest : σ),
      Population.plantAt positions species felling renderer stream =
        .ok ((scene.population, scene.renderer), rest) := by
  cases planted with
  | plantAt planted => exact ⟨_, _, _, _, _, planted⟩
  | grow same planted =>
      unfold Population.grow at planted
      obtain ⟨positions, afterPositions, -, planted⟩ := Sampling.bind_eq_ok_iff.mp planted
      exact ⟨_, _, _, _, _, same ▸ planted⟩

theorem Scene.Planted.upright {felling : Felling α} {scene : Scene α}
    (planted : scene.Planted σ felling) : scene.Upright felling := by
  obtain ⟨positions, species, renderer, stream, rest, planted⟩ := planted.exists_plantAt
  exact Population.plantAt_upright planted

/-! ## A small scene -/

/-- A species whose trees are one segment. -/
def Species.pole : Species Float32 :=
  { (Species.broadleaf : Species Float32) with startWord := ['F'], rules := .empty }

def plantPole : Except SampleError ((Population Float32 × Renderer Float32) × Cycle) :=
  Population.plantAt [⟨0, 0, 0⟩] .pole .standard .empty ⟨#[0], 0⟩

/-- The scene with one pole. -/
def Scene.pole : Scene Float32 :=
  match plantPole with
  | .ok ((population, renderer), _) => { population, renderer }
  | .error _ =>
      { population := { stand := {}, animator := { felling := .standard } }, renderer := {} }

theorem Scene.pole_planted : Scene.pole.Planted Cycle .standard := by
  have planted : plantPole.isOk = true := by decide +kernel
  cases run : plantPole with
  | error cause =>
      rw [run] at planted
      cases planted
  | ok result =>
      obtain ⟨⟨population, renderer⟩, rest⟩ := result
      have same : Scene.pole = { population, renderer } := by
        unfold Scene.pole
        rw [run]
      rw [same]
      exact .plantAt run

end Grove
