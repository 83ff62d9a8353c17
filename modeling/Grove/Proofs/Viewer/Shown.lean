import Grove.Proofs.Forest.Kept
import Grove.Proofs.Forest.Picking
import Grove.Proofs.Viewer.Charted
import Grove.Proofs.Viewer.Events

/-!
# What a viewer shows

Whatever happens to a viewer, its forest and its renderer have come from planting in an empty
renderer by felling and by time alone. So the renderer holds the two batches of the present forest,
and the menu, which is closed when another forest is planted, is about a tree of this one.
-/

set_option autoImplicit false

namespace Grove

variable {α : Type} [Scalar α]

def Planted.scene (planted : Planted α) : Scene α :=
  ⟨planted.population, planted.renderer⟩

/-! ## Trees of a scene -/

theorem Scene.isSome_tree?_step {scene : Scene α} (sound : scene.Sound) (step : ForestStep α)
    (id : TreeId) : ((scene.step step).tree? id).isSome = (scene.tree? id).isSome := by
  cases step with
  | update time => rw [tree?_update sound, Option.isSome_map]
  | fell felled reference =>
      rcases scene.population.standing_or_not felled with ⟨tree, found, standing⟩ | down
      · rw [tree?_fell_of_standing found standing]
        split
        · rename_i same
          rw [Option.isSome_some, ← same]
          exact (congrArg Option.isSome found).symm
        · rfl
      · rw [step_fell_of_not_standing down]

/-! ## The batches of a planted scene -/

theorem Registry.build_empty (registry : Registry α) :
    (registry.build .empty).1.branches.handle = some ⟨0⟩ ∧
      (registry.build .empty).1.leaves.handle = some ⟨1⟩ ∧
      (registry.build .empty).2.batches.size = 2 := by
  have branches : (registry.branches.build .empty).2.batches.size = 1 := Batch.size_build _ _
  have leaves := Batch.size_build registry.leaves (registry.branches.build .empty).2
  rw [branches] at leaves
  exact ⟨rfl, congrArg (fun size => some (Handle.mk size)) branches, leaves⟩

theorem Population.grow_empty {σ : Type} [Generator σ] {config : Configuration α}
    {ground : Ground α} {stream rest : σ} {population : Population α} {renderer : Renderer α}
    (grown : Population.grow config ground .empty stream = .ok ((population, renderer), rest)) :
    population.registry.branches.handle = some ⟨0⟩ ∧
      population.registry.leaves.handle = some ⟨1⟩ ∧ renderer.batches.size = 2 := by
  unfold Population.grow at grown
  obtain ⟨_, _, -, grown⟩ := Sampling.bind_eq_ok_iff.mp grown
  obtain ⟨stand, -, rfl, rfl⟩ := Population.plantAt_eq_ok grown
  exact stand.registry.build_empty

namespace Scene

/-- The renderer draws the two batches of the registry and nothing else, every slot in its present
place. -/
structure DrawnAlone (scene : Scene α) : Prop where
  branches : scene.population.registry.branches.handle = some ⟨0⟩
  leaves : scene.population.registry.leaves.handle = some ⟨1⟩
  batches : scene.renderer.batches.map (fun drawn => (drawn.category, drawn.instances)) =
    #[(.branch, scene.population.registry.branches.slots.map (·.live)),
      (.leaf, scene.population.registry.leaves.slots.map (·.live))]

omit [Scalar α] in
theorem Kept.drawn {planted scene : Scene α} (kept : planted.Kept scene) (sound : scene.Sound)
    (orderly : scene.population.registry.Orderly) {category : Category} {handle : Handle}
    (known : (planted.population.registry.batch category).handle = some handle) :
    (scene.renderer.batch? handle).map (fun drawn => (drawn.category, drawn.instances)) =
      some (category, (scene.population.registry.batch category).slots.map (·.live)) := by
  obtain ⟨drawn, found, shape⟩ := Option.map_eq_some_iff.mp (kept.shown known).shape
  have sameCategory : drawn.category = category :=
    (congrArg Prod.fst shape).trans (orderly.category category)
  have sameInstances : drawn.instances =
      (scene.population.registry.batch category).slots.map (·.live) := by
    refine Array.ext_getElem? fun index => ?_
    have stored := kept.uploaded?_eq sound known index
    rw [Renderer.uploaded?, found] at stored
    rw [Array.getElem?_map]
    exact stored
  rw [found, Option.map_some, sameCategory, sameInstances]

private theorem drawnAlone_run {felling : Felling α} {σ : Type} [Generator σ] {planted : Scene α}
    (kinds : planted.Planted σ felling)
    (branches : (planted.population.registry.batch .branch).handle = some ⟨0⟩)
    (leaves : (planted.population.registry.batch .leaf).handle = some ⟨1⟩)
    (two : planted.renderer.batches.size = 2) (steps : List (ForestStep α)) :
    (planted.run steps).DrawnAlone := by
  have kept := kinds.kept.run kinds.upright.sound steps
  have sound := kinds.upright.sound.run steps
  have orderly : (planted.run steps).population.registry.Orderly := by
    obtain ⟨renderer, shown, same⟩ := reached_run kinds.reached steps
    exact (congrArg (·.registry.Orderly) same).mpr (Display.orderly_run_empty renderer shown)
  -- The planted forest was drawn in two batches, and no step makes another one.
  have others : ∀ index, 2 ≤ index → (planted.run steps).renderer.batch? ⟨index⟩ = none := by
    intro index beyond
    have apart : ∀ category,
        (planted.population.registry.batch category).handle ≠ some ⟨index⟩ := by
      intro category same
      cases category with
      | branch =>
          cases branches.symm.trans same
          exact absurd beyond (by decide)
      | leaf =>
          cases leaves.symm.trans same
          exact absurd beyond (by decide)
    exact (kept.others ⟨index⟩ apart).trans (Array.getElem?_eq_none (two ▸ beyond))
  refine ⟨kept.handle_eq branches,
    kept.handle_eq leaves, Array.ext_getElem? fun index => ?_⟩
  rw [Array.getElem?_map]
  match index with
  | 0 => exact kept.drawn sound orderly branches
  | 1 => exact kept.drawn sound orderly leaves
  | index + 2 => exact congrArg (Option.map _) (others (index + 2) (Nat.le_add_left 2 index))

end Scene

namespace Viewer

def scene (viewer : Viewer α) : Scene α :=
  ⟨viewer.population, viewer.renderer⟩

/-- What an event makes of the forest of a viewer and of its menu. -/
inductive Turn (viewer next : Viewer α) : Prop
  | stays (scene : next.scene = viewer.scene)
      (menu : next.menu = viewer.menu ∨ next.menu = none)
  | picks (view : View α) (screen : Vec2 α) (scene : next.scene = viewer.scene)
      (menu : next.menu = viewer.population.pick? viewer.renderer view screen)
  | moves (step : ForestStep α) (scene : next.scene = viewer.scene.step step)
      (menu : next.menu = viewer.menu ∨ next.menu = none)
  | replants (config : Configuration α) (entropy : ChaCha) (planted : Planted α)
      (grown : plant config entropy = .ok planted) (scene : next.scene = planted.scene)
      (menu : next.menu = none)

/-- Growing again keeps the forest and the menu, or puts a planted forest in their place. -/
theorem regrow_eq_ok {viewer next : Viewer α} {grew : Bool}
    (regrown : viewer.regrow = .ok (grew, next)) :
    next.scene = viewer.scene ∧ next.menu = viewer.menu ∨
      ∃ config entropy planted, plant config entropy = .ok planted ∧
        next.scene = planted.scene ∧ next.menu = none := by
  unfold regrow at regrown
  split at regrown
  · cases regrown
    exact .inl ⟨rfl, rfl⟩
  · dsimp only at regrown
    split at regrown
    · cases regrown
      exact .inl ⟨rfl, rfl⟩
    · obtain ⟨_, replanted, regrown⟩ := Except.bind_eq_ok_iff.mp regrown
      cases regrown
      obtain ⟨planted, grown, replanted⟩ := Except.bind_eq_ok_iff.mp replanted
      cases replanted
      exact .inr ⟨_, _, planted, grown, rfl, rfl⟩

private theorem turn_respond {viewer next : Viewer α} {event : Event α}
    (responded : viewer.respond event = .ok next) : viewer.Turn next := by
  cases event with
  | settle | look =>
      cases responded
      exact .stays rfl (.inl rfl)
  | pass time =>
      cases responded
      unfold advance
      split
      · exact .stays rfl (.inl rfl)
      · exact .moves (.update (Scalar.clamp time 0 maxFrameTime)) rfl (.inl rfl)
  | act canvas action =>
      cases action with
      | regrow =>
          obtain ⟨_, regrown, responded⟩ := Except.bind_eq_ok_iff.mp responded
          cases responded
          obtain ⟨scene, menu⟩ | ⟨config, entropy, planted, grown, scene, menu⟩ :=
            regrow_eq_ok regrown
          · exact .stays scene (.inl menu)
          · exact .replants config entropy planted grown scene menu
      | click pointer =>
          cases responded
          unfold moveActor
          dsimp only
          split <;> exact .stays rfl (.inr rfl)
      | openMenu pointer =>
          cases responded
          exact .picks (viewer.camera.view canvas.size) (canvas.toLocal pointer) rfl rfl
      | chop =>
          cases responded
          unfold chopSelected
          split
          · exact .stays rfl (.inl rfl)
          · rename_i id _
            exact .moves (.fell id viewer.actor) rfl (.inr rfl)
      | closeMenu =>
          cases responded
          exact .stays rfl (.inr rfl)
      | togglePause | adoptSpecies | resetConfig | edit | writeRules | drag | scroll =>
          cases responded
          exact .stays rfl (.inl rfl)

theorem plant_eq_ok {config : Configuration α} {entropy : ChaCha} {planted : Planted α}
    (done : plant config entropy = .ok planted) :
    ∃ stream rest : ChaCha, Population.grow config (.flat groundHeight) .empty stream =
      .ok ((planted.population, planted.renderer), rest) := by
  obtain ⟨_, grown, done⟩ := Except.bind_eq_ok_iff.mp done
  cases done
  exact ⟨_, _, grown⟩

theorem respondAll_of_run {viewer later : Viewer α} {steps : List (Canvas α × Step α)}
    (ran : viewer.run steps = .ok later) :
    viewer.respondAll (steps.flatMap fun entry => entry.2.events entry.1) = .ok later := by
  induction steps generalizing viewer with
  | nil =>
      cases ran
      rfl
  | cons entry rest ih =>
      obtain ⟨next, stepped, ran⟩ := Except.bind_eq_ok_iff.mp ran
      exact respondAll_append_eq_ok (respondAll_of_step stepped) (ih ran)

/-- The forest of a viewer has come from a planted one, and an open menu is about one of its
trees. -/
structure Descended (viewer : Viewer α) : Prop where
  forest : ∃ config entropy planted steps, plant config entropy = .ok planted ∧
    viewer.scene = planted.scene.run steps
  menu : ∀ id, viewer.menu = some id → (viewer.scene.tree? id).isSome = true

theorem descended_of_ofConfig {config : Configuration α} {entropy : ChaCha} {viewer : Viewer α}
    (opened : ofConfig config entropy = .ok viewer) : viewer.Descended := by
  obtain ⟨planted, grown, opened⟩ := Except.bind_eq_ok_iff.mp opened
  cases opened
  exact ⟨⟨config, entropy, planted, [], grown, rfl⟩, nofun⟩

variable {viewer next later : Viewer α}

theorem Descended.reached (descended : viewer.Descended) :
    viewer.scene.Sound ∧ viewer.scene.display.Reached ∧ viewer.scene.DrawnAlone := by
  obtain ⟨config, entropy, planted, steps, grown, same⟩ := descended.forest
  obtain ⟨stream, rest, grown⟩ := plant_eq_ok grown
  have kinds : planted.scene.Planted ChaCha config.felling := .grow rfl grown
  obtain ⟨branches, leaves, two⟩ := Population.grow_empty grown
  rw [same]
  exact ⟨kinds.upright.sound.run steps, Scene.reached_run kinds.reached steps,
    Scene.drawnAlone_run kinds branches leaves two steps⟩

theorem Descended.turn (descended : viewer.Descended) (turn : viewer.Turn next) :
    next.Descended := by
  obtain ⟨config, entropy, planted, steps, grown, same⟩ := descended.forest
  obtain ⟨sound, -, -⟩ := descended.reached
  cases turn with
  | stays scene menu =>
      refine ⟨⟨config, entropy, planted, steps, grown, scene.trans same⟩, fun id opened => ?_⟩
      obtain kept | closed := menu
      · rw [scene]
        exact descended.menu id (kept.symm.trans opened)
      · cases closed.symm.trans opened
  | picks view screen scene menu =>
      refine ⟨⟨config, entropy, planted, steps, grown, scene.trans same⟩, fun id opened => ?_⟩
      obtain ⟨tree, found, -⟩ := viewer.scene.exists_of_pick? (menu.symm.trans opened)
      rw [scene, found]
      rfl
  | moves step scene menu =>
      refine ⟨⟨config, entropy, planted, steps ++ [step], grown, ?_⟩, fun id opened => ?_⟩
      · rw [scene, same, Scene.run_concat]
      · obtain kept | closed := menu
        · rw [scene, Scene.isSome_tree?_step sound]
          exact descended.menu id (kept.symm.trans opened)
        · cases closed.symm.trans opened
  | replants config entropy planted grown scene menu =>
      refine ⟨⟨config, entropy, planted, [], grown, scene⟩, fun id opened => ?_⟩
      cases menu.symm.trans opened

theorem Descended.respondAll (descended : viewer.Descended) {events : List (Event α)}
    (responded : viewer.respondAll events = .ok later) : later.Descended := by
  induction events generalizing viewer with
  | nil =>
      cases responded
      exact descended
  | cons event rest ih =>
      obtain ⟨next, first, responded⟩ := Except.bind_eq_ok_iff.mp responded
      exact ih (descended.turn (turn_respond first)) responded

/-- Whatever happens to the viewer of a configuration, its renderer holds the two batches of its
forest and nothing else, and an open menu is about a tree of its forest. -/
theorem shown_of_respondAll {config : Configuration α} {entropy : ChaCha}
    (opened : ofConfig config entropy = .ok viewer) {events : List (Event α)}
    (responded : viewer.respondAll events = .ok later) :
    later.scene.DrawnAlone ∧ ∀ id, later.menu = some id →
      ∃ tree, later.population.tree? id = some tree ∧ tree.id = id := by
  have descended := (descended_of_ofConfig opened).respondAll responded
  obtain ⟨sound, -, drawn⟩ := descended.reached
  refine ⟨drawn, fun id selected => ?_⟩
  obtain ⟨tree, found⟩ := Option.isSome_iff_exists.mp (descended.menu id selected)
  exact ⟨tree, found, sound.ids id tree found⟩

open Charted in
theorem shown_of_respondAll_selectTrunk :
    ∃ viewer selecting : Viewer Charted, ofConfig pole (.ofSeed 0) = .ok viewer ∧
      viewer.run selectTrunk = .ok selecting ∧ selecting.scene.DrawnAlone ∧
      selecting.menu = some 0 ∧
      ∃ tree, selecting.population.tree? 0 = some tree ∧ tree.id = 0 := by
  obtain ⟨viewer, selecting, opened, ran, menu, -⟩ := exists_selectTrunk
  obtain ⟨drawn, named⟩ := shown_of_respondAll opened (respondAll_of_run ran)
  exact ⟨viewer, selecting, opened, ran, drawn, menu, named 0 menu⟩

end Viewer

end Grove
