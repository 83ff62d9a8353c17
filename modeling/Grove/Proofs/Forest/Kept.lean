import Grove.Proofs.Forest.Sound
import Grove.Proofs.Instance.Display
import Grove.Proofs.Instance.Layout

/-!
# What steps keep

No step changes who owns a slot, where the renderer keeps it, or anything else that the renderer
draws. Two scenes that have come from the same planted one are therefore the same as soon as their
trees and slots are.
-/

set_option autoImplicit false

namespace Grove

variable {α σ : Type}

attribute [ext] Stand Registry Batch DrawBatch Renderer

theorem Renderer.batch?_eq {first second : Renderer α} {handle : Handle} {shape : Category × Nat}
    (shapeFirst : first.shape? handle = some shape)
    (shapeSecond : second.shape? handle = some shape)
    (changedFirst : first.isChanged handle = true) (changedSecond : second.isChanged handle = true)
    (uploaded : ∀ index, first.uploaded? handle index = second.uploaded? handle index) :
    first.batch? handle = second.batch? handle := by
  obtain ⟨drawn, found, rfl⟩ := Option.map_eq_some_iff.mp shapeFirst
  obtain ⟨other, known, same⟩ := Option.map_eq_some_iff.mp shapeSecond
  simp only [isChanged, uploaded?, found, known, Option.any_some, Option.bind_some] at *
  exact congrArg some (DrawBatch.ext (Prod.mk.inj same).1.symm (Array.ext_getElem? uploaded)
    (changedFirst.trans changedSecond.symm))

namespace Registry

/-- Two registries have batches of the same kinds, under the same handles, with the same owners. -/
structure MadeAlike (registry other : Registry α) : Prop where
  category : ∀ category, (other.batch category).category = (registry.batch category).category
  handle : ∀ category, (other.batch category).handle = (registry.batch category).handle
  owners : ∀ category, (registry.batch category).SameOwners (other.batch category)

theorem MadeAlike.refl (registry : Registry α) : registry.MadeAlike registry :=
  ⟨fun _ => rfl, fun _ => rfl, fun _ => .refl _⟩

theorem MadeAlike.trans {first second third : Registry α} (before : first.MadeAlike second)
    (after : second.MadeAlike third) : first.MadeAlike third :=
  ⟨fun category => (after.category category).trans (before.category category),
    fun category => (after.handle category).trans (before.handle category),
    fun category => (before.owners category).trans (after.owners category)⟩

theorem MadeAlike.moveOwned (registry : Registry α) (owner : TreeId)
    (change : Mat4 α → Mat4 α) : registry.MadeAlike (registry.moveOwned owner change).2 :=
  ⟨fun category => by simp [batch_moveOwned], fun category => by simp [batch_moveOwned],
    fun category => by simpa only [batch_moveOwned] using .moveOwned _ owner change⟩

theorem MadeAlike.flush {registry : Registry α} (consistent : registry.Consistent)
    (renderer : Renderer α) : registry.MadeAlike (registry.flush renderer).2.1 :=
  ⟨fun category => by simp [batch_flush, Batch.category_flush (consistent category)],
    fun category => by simp [batch_flush],
    fun category => by simpa only [batch_flush] using .flush _ _⟩

/-- A flush does not touch what the renderer draws beside the two batches. -/
theorem batch?_flush_of_ne {registry : Registry α} {renderer : Renderer α}
    (built : registry.Built renderer) {handle : Handle}
    (apart : ∀ category, (registry.batch category).handle ≠ some handle) :
    (registry.flush renderer).2.2.batch? handle = renderer.batch? handle := by
  obtain ⟨branches, knownBranches, -⟩ := built.uploaded .branch
  obtain ⟨leaves, knownLeaves, -⟩ := built.uploaded .leaf
  have first := Batch.frame_flush (built.consistent .branch) knownBranches renderer
  have second := Batch.frame_flush (built.consistent .leaf) knownLeaves
    (registry.flushedBranches renderer)
  have others := second.others handle fun same => apart .leaf (knownLeaves.trans (by rw [same]))
  exact others.trans
    (first.others handle fun same => apart .branch (knownBranches.trans (by rw [same])))

private theorem isChanged_flush {registry : Registry α} (consistent : registry.Consistent)
    {renderer : Renderer α} {handle : Handle} (changed : renderer.isChanged handle = true) :
    (registry.flush renderer).2.2.isChanged handle = true := by
  rcases noted_flush consistent renderer handle with flagged | same
  · exact flagged
  · rwa [Renderer.isChanged, same]

end Registry

namespace Scene

/-- What a scene has kept of the planted one. -/
structure Kept (planted scene : Scene α) : Prop where
  felling : scene.population.animator.felling = planted.population.animator.felling
  madeAlike : planted.population.registry.MadeAlike scene.population.registry
  mirrored : scene.population.registry.Mirrored scene.renderer fun category =>
    (planted.population.registry.batch category).size
  queue : ∀ category, (scene.population.registry.batch category).queue = #[]
  changed : ∀ category handle, (planted.population.registry.batch category).handle = some handle →
    scene.renderer.isChanged handle = true
  others : ∀ handle,
    (∀ category, (planted.population.registry.batch category).handle ≠ some handle) →
      scene.renderer.batch? handle = planted.renderer.batch? handle

/-! ## Scenes with the same trees and slots -/

theorem Kept.handle_eq {planted scene : Scene α} (kept : planted.Kept scene) {category : Category}
    {handle : Handle}
    (known : (planted.population.registry.batch category).handle = some handle) :
    (scene.population.registry.batch category).handle = some handle :=
  (kept.madeAlike.handle category).trans known

theorem Kept.shown {planted scene : Scene α} (kept : planted.Kept scene) {category : Category}
    {handle : Handle}
    (known : (planted.population.registry.batch category).handle = some handle) :
    (scene.population.registry.batch category).Shown scene.renderer handle
      (planted.population.registry.batch category).size := by
  obtain ⟨own, shown⟩ := kept.mirrored.shown category
  cases (kept.handle_eq known).symm.trans shown.built
  exact shown

theorem Kept.uploaded?_eq {planted scene : Scene α} (kept : planted.Kept scene)
    (sound : scene.Sound) {category : Category} {handle : Handle}
    (known : (planted.population.registry.batch category).handle = some handle) (index : Nat) :
    scene.renderer.uploaded? handle index = (scene.slot? category index).map (·.live) := by
  cases found : scene.slot? category index with
  | some content =>
      have shown := sound.shown category index content found
      simpa [Scene.uploaded?, Registry.uploaded?, kept.handle_eq known] using shown
  | none =>
      have shown := kept.shown known
      refine Option.eq_none_iff_forall_ne_some.mpr fun placement stored => ?_
      have inside := Renderer.lt_of_uploaded shown.shape stored
      exact Nat.not_lt.mpr (Batch.slot?_eq_none_iff.mp found) (Nat.lt_of_lt_of_le inside shown.within)

section

variable {planted first second : Scene α} (keptFirst : planted.Kept first)
  (keptSecond : planted.Kept second)
  (slots : ∀ category slot, first.slot? category slot = second.slot? category slot)

include keptFirst keptSecond slots

theorem Kept.batch_eq (category : Category) :
    first.population.registry.batch category = second.population.registry.batch category := by
  have alike := keptFirst.madeAlike
  have other := keptSecond.madeAlike
  exact Batch.ext ((alike.category category).trans (other.category category).symm)
    (Array.ext_getElem? fun slot => slots category slot)
    ((alike.owners category).spans.trans (other.owners category).spans.symm)
    ((alike.owners category).contiguous.trans (other.owners category).contiguous.symm)
    ((alike.handle category).trans (other.handle category).symm)
    ((keptFirst.queue category).trans (keptSecond.queue category).symm)

theorem Kept.stand_eq (trees : ∀ id, first.tree? id = second.tree? id) :
    first.population.stand = second.population.stand :=
  Stand.ext (Array.ext_getElem? trees)
    (Registry.ext (keptFirst.batch_eq keptSecond slots .branch)
      (keptFirst.batch_eq keptSecond slots .leaf))

/-- The renderer draws the slots of both scenes at the same places, and the rest as before. -/
theorem Kept.renderer_eq (soundFirst : first.Sound) (soundSecond : second.Sound) :
    first.renderer = second.renderer := by
  refine Renderer.ext (Array.ext_getElem? fun index => ?_)
  change first.renderer.batch? ⟨index⟩ = second.renderer.batch? ⟨index⟩
  by_cases own : ∃ category, (planted.population.registry.batch category).handle = some ⟨index⟩
  · obtain ⟨category, known⟩ := own
    have shape := (keptSecond.shown known).shape
    rw [← keptFirst.batch_eq keptSecond slots category] at shape
    refine Renderer.batch?_eq (keptFirst.shown known).shape shape
      (keptFirst.changed category _ known) (keptSecond.changed category _ known) fun slot => ?_
    rw [keptFirst.uploaded?_eq soundFirst known, keptSecond.uploaded?_eq soundSecond known, slots]
  · have apart := not_exists.mp own
    exact (keptFirst.others _ apart).trans (keptSecond.others _ apart).symm

end

end Scene

variable [Scalar α] [Generator σ]

theorem Registry.isChanged_build (registry : Registry α) (renderer : Renderer α)
    {category : Category} {handle : Handle}
    (known : ((registry.build renderer).1.batch category).handle = some handle) :
    (registry.build renderer).2.isChanged handle = true := by
  have first := Batch.isChanged_build registry.branches renderer
  cases category with
  | branch =>
      cases known
      have apart : Handle.mk renderer.batches.size ≠
          ⟨(registry.branches.build renderer).2.batches.size⟩ := by
        simp [Batch.size_build]
      have same := Batch.batch?_build_of_ne registry.leaves _ apart
      exact (congrArg (Option.any DrawBatch.changed) same).trans first
  | leaf =>
      cases known
      exact Batch.isChanged_build registry.leaves _

namespace Stand

private theorem advanceTree_madeAlike (stand : Stand α) (time : α) (id : TreeId) :
    stand.registry.MadeAlike (stand.advanceTree time id).2.registry := by
  rcases stand.falling_or_idle id with ⟨tree, fall, found, falling⟩ | idle
  · rw [advanceTree_of_falling found falling]
    exact .moveOwned _ _ _
  · rw [advanceTree_of_not_falling idle]
    exact .refl _

theorem advanceTrees_madeAlike (stand : Stand α) (time : α) (ids : List TreeId) :
    stand.registry.MadeAlike (stand.advanceTrees time ids).2.registry := by
  induction ids generalizing stand with
  | nil => exact .refl _
  | cons id ids induction =>
      exact (stand.advanceTree_madeAlike time id).trans (induction (stand.advanceTree time id).2)

private theorem advanceTree_mirrored {stand : Stand α} {renderer : Renderer α}
    {capacity : Category → Nat} (built : stand.registry.Built renderer)
    (mirrored : stand.registry.Mirrored renderer capacity) (time : α) (id : TreeId) :
    (stand.advanceTree time id).2.registry.Mirrored renderer capacity := by
  rcases stand.falling_or_idle id with ⟨tree, fall, found, falling⟩ | idle
  · rw [advanceTree_of_falling found falling]
    exact mirrored.moveOwned built.consistent id _
  · rwa [advanceTree_of_not_falling idle]

private theorem advanceTrees_mirrored {stand : Stand α} {renderer : Renderer α}
    {capacity : Category → Nat} (built : stand.registry.Built renderer)
    (mirrored : stand.registry.Mirrored renderer capacity) (time : α) (ids : List TreeId) :
    (stand.advanceTrees time ids).2.registry.Mirrored renderer capacity := by
  induction ids generalizing stand with
  | nil => exact mirrored
  | cons id ids induction =>
      exact induction (advanceTree_built built time id) (advanceTree_mirrored built mirrored time id)

end Stand

namespace Scene

theorem Kept.update {planted scene : Scene α} (kept : planted.Kept scene) (sound : scene.Sound)
    (time : α) : planted.Kept (scene.step (.update time)) := by
  have built := advanced_built sound time
  have alike := kept.madeAlike.trans
    (scene.population.stand.advanceTrees_madeAlike (scene.stepTime time)
      scene.population.animator.active)
  have mirrored := Stand.advanceTrees_mirrored sound.built kept.mirrored (scene.stepTime time)
    scene.population.animator.active
  rw [step_update]
  refine ⟨kept.felling, alike.trans (.flush built.consistent scene.renderer),
    mirrored.flush built.consistent, Registry.queue_flush built.consistent scene.renderer, ?_, ?_⟩
  · intro category handle known
    exact Registry.isChanged_flush built.consistent (kept.changed category handle known)
  · intro handle apart
    refine (Registry.batch?_flush_of_ne built fun category => ?_).trans (kept.others handle apart)
    exact alike.handle category ▸ apart category

theorem Kept.step {planted scene : Scene α} (kept : planted.Kept scene) (sound : scene.Sound)
    (step : ForestStep α) : planted.Kept (scene.step step) := by
  cases step with
  | update time => exact kept.update sound time
  | fell id reference =>
      rcases scene.population.standing_or_not id with ⟨tree, found, standing⟩ | down
      · rw [step_fell_of_standing found standing]
        exact ⟨kept.felling, kept.madeAlike, kept.mirrored, kept.queue, kept.changed, kept.others⟩
      · rwa [step_fell_of_not_standing down]

theorem Kept.run {planted scene : Scene α} (kept : planted.Kept scene) (sound : scene.Sound)
    (steps : List (ForestStep α)) : planted.Kept (scene.run steps) := by
  induction steps generalizing scene with
  | nil => exact kept
  | cons step steps induction => exact induction (kept.step sound step) (sound.step step)

private theorem kept_of_plantAt {positions : List (Vec3 α)} {species : Species α}
    {felling : Felling α} {renderer : Renderer α} {stream rest : σ} {scene : Scene α}
    (planted : Population.plantAt positions species felling renderer stream =
      .ok ((scene.population, scene.renderer), rest)) : scene.Kept scene := by
  obtain ⟨stand, grown, population, drawn⟩ := Population.plantAt_eq_ok planted
  have consistent := (Stand.upright_of_foldlM grown).consistent
  have sizes : (fun category => ((stand.registry.build renderer).1.batch category).size) =
      fun category => (stand.registry.batch category).size := by
    funext category
    cases category <;> exact Array.size_map ..
  obtain ⟨reached, shown⟩ := scene
  dsimp only at population drawn
  subst population drawn
  refine ⟨rfl, .refl _, ?_, fun category => ?_, fun category handle known => ?_, fun _ _ => rfl⟩
  · change (stand.registry.build renderer).1.Mirrored _ fun category =>
      ((stand.registry.build renderer).1.batch category).size
    rw [sizes]
    exact .build consistent renderer
  · cases category <;> rfl
  · exact Registry.isChanged_build _ _ known

theorem Planted.kept {felling : Felling α} {scene : Scene α}
    (planted : scene.Planted σ felling) : scene.Kept scene := by
  obtain ⟨positions, species, renderer, stream, rest, planted⟩ := planted.exists_plantAt
  exact kept_of_plantAt planted

end Scene

end Grove
