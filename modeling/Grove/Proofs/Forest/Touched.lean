import Grove.Proofs.Forest.Kept
import Grove.Proofs.Instance.Handles

/-!
# What an update touches

Between updates a scene is settled: no slot waits to be flushed. An update then queues the slots of
the trees that are falling, and no others. Those are the slots that are placed anew and drawn anew,
and a batch of the renderer is flagged exactly when one of them is in it. While no tree falls an
update does nothing at all.
-/

set_option autoImplicit false

namespace Grove

/-! ## Flushes -/

namespace Batch

variable {α : Type}

private theorem changed_redraw (batch : Batch α) (drawn : DrawBatch α) :
    (batch.redraw drawn).changed = (drawn.changed || !batch.queue.isEmpty) := by
  unfold redraw
  split <;> rename_i waiting <;> simp [waiting]

private theorem uploaded?_flush_of_not_mem {batch : Batch α} (consistent : batch.Consistent)
    (renderer : Renderer α) (handle : Handle) {index : Nat} (idle : index ∉ batch.queue) :
    (batch.flush renderer).2.2.uploaded? handle index = renderer.uploaded? handle index := by
  rcases flush_cases consistent renderer with ⟨-, flushed⟩ | ⟨own, -, -, flushed⟩
  · rw [flushed]
  · rw [flushed, Renderer.uploaded?_markChanged, uploaded?_foldl_upload,
      if_neg fun written => idle (Array.mem_def.mpr written.2)]

end Batch

namespace Registry

variable {α : Type}

/-- No slot waits to be flushed. -/
def Settled (registry : Registry α) : Prop :=
  ∀ category, (registry.batch category).queue = #[]

theorem Settled.flush {registry : Registry α} (settled : registry.Settled)
    (renderer : Renderer α) : registry.flush renderer = (0, registry, renderer) := by
  have branches := Batch.flush_of_queue_empty (settled .branch) renderer
  have leaves := Batch.flush_of_queue_empty (settled .leaf) renderer
  simp only [batch] at branches leaves
  simp [Registry.flush, branches, leaves]

theorem Settled.not_queued {registry : Registry α} (settled : registry.Settled)
    (consistent : registry.Consistent) {category : Category} {slot : Nat} {content : Slot α}
    (found : registry.slot? category slot = some content) : content.queued = false := by
  refine (consistent category).not_queued found ?_
  rw [settled category]
  exact Array.not_mem_empty slot

/-- A flush writes to the slots that wait, in the batches that are drawn under a handle. -/
private theorem uploaded?_flush_of_not_mem {registry : Registry α}
    (consistent : registry.Consistent) (renderer : Renderer α) {handle : Handle} {index : Nat}
    (idle : ∀ category, (registry.batch category).handle = some handle →
      index ∉ (registry.batch category).queue) :
    (registry.flush renderer).2.2.uploaded? handle index = renderer.uploaded? handle index := by
  have kept (category : Category) (between : Renderer α) :
      ((registry.batch category).flush between).2.2.uploaded? handle index =
        between.uploaded? handle index := by
    by_cases drawnThere : (registry.batch category).handle = some handle
    · exact Batch.uploaded?_flush_of_not_mem (consistent category) between handle
        (idle category drawnThere)
    · exact Batch.uploaded?_flush_of_ne (consistent category) between drawnThere index
  exact (kept .leaf (registry.flushedBranches renderer)).trans (kept .branch renderer)

theorem Built.batch?_flush {registry : Registry α} {renderer : Renderer α}
    (built : registry.Built renderer) {category : Category} {handle : Handle}
    (known : (registry.batch category).handle = some handle) :
    (registry.flush renderer).2.2.batch? handle =
      (renderer.batch? handle).map (registry.batch category).redraw := by
  rw [Registry.batch?_flush]
  congr 1
  funext drawn
  -- The other category is drawn under another handle.
  cases category with
  | branch =>
      have branches : registry.branches.handle = some handle := known
      have leaves : registry.leaves.handle ≠ some handle := branches ▸ built.apart.symm
      simp [redraw, drawnUnder, batch, branches, leaves]
  | leaf =>
      have leaves : registry.leaves.handle = some handle := known
      have branches : registry.branches.handle ≠ some handle := leaves ▸ built.apart
      simp [redraw, drawnUnder, batch, branches, leaves]

/-- A flush flags the batches in which slots wait. -/
theorem Built.isChanged_flush_iff {registry : Registry α} {renderer : Renderer α}
    (built : registry.Built renderer) {category : Category} {handle : Handle}
    (known : (registry.batch category).handle = some handle) :
    (registry.flush renderer).2.2.isChanged handle = true ↔
      renderer.isChanged handle = true ∨ ∃ slot, slot ∈ (registry.batch category).queue := by
  have waiting : (registry.batch category).queue.isEmpty = false ↔
      ∃ slot, slot ∈ (registry.batch category).queue := by
    rw [← Bool.not_eq_true, Array.isEmpty_iff, Array.eq_empty_iff_forall_not_mem, not_forall_not]
  rw [← waiting, Renderer.isChanged, Renderer.isChanged, built.batch?_flush known]
  cases drawn : renderer.batch? handle with
  | some batch => simp [Batch.changed_redraw]
  | none =>
      -- What waits has been uploaded, so the renderer has its batch.
      have nothing : ¬ ∃ slot, slot ∈ (registry.batch category).queue := by
        rintro ⟨slot, member⟩
        obtain ⟨content, found, -⟩ := ((built.consistent category).mem_queue_iff slot).mp member
        obtain ⟨own, sameHandle, uploaded⟩ := built.uploaded category
        cases known.symm.trans sameHandle
        obtain ⟨placement, stored, -⟩ := uploaded slot content found
        simp [Renderer.uploaded?, drawn] at stored
      simpa [waiting] using nothing

end Registry

/-! ## Falling slots -/

namespace Scene

variable {α : Type}

/-- A slot of the scene belongs to a tree that is falling. -/
def FallingSlot (scene : Scene α) (category : Category) (slot : Nat) : Prop :=
  ∃ content tree, scene.slot? category slot = some content ∧
    scene.tree? content.owner = some tree ∧ tree.phase.isFalling = true

def handle? (scene : Scene α) (category : Category) : Option Handle :=
  (scene.population.registry.batch category).handle

/-- A sound scene in which no slot waits to be flushed. -/
structure Settled (scene : Scene α) : Prop where
  sound : scene.Sound
  queues : scene.population.registry.Settled

variable [Scalar α]

private theorem rotation?_isSome_iff (scene : Scene α) (time : α) (id : TreeId) :
    (scene.rotation? time id).isSome = true ↔
      ∃ tree, scene.tree? id = some tree ∧ tree.phase.isFalling = true := by
  unfold rotation?
  cases scene.tree? id with
  | none => simp
  | some tree => cases phase : tree.phase <;> simp [Tree.rotation?, phase, Phase.isFalling]

private theorem rotation?_eq_none {scene : Scene α} {category : Category} {slot : Nat}
    {content : Slot α} (found : scene.slot? category slot = some content)
    (still : ¬ scene.FallingSlot category slot) (time : α) :
    scene.rotation? time content.owner = none := by
  rw [← Option.not_isSome_iff_eq_none, rotation?_isSome_iff]
  rintro ⟨tree, known, falling⟩
  exact still ⟨content, tree, found, known, falling⟩

private theorem queued_rotated (rotation : Option (Mat4 α)) (content : Slot α) :
    (Stand.rotated rotation content).queued = (content.queued || rotation.isSome) := by
  cases rotation <;> simp [Stand.rotated]

private theorem handle_advanced (scene : Scene α) (time : α) (category : Category) :
    ((scene.advanced time).2.registry.batch category).handle = scene.handle? category :=
  (scene.population.stand.advanceTrees_madeAlike _ _).handle category

namespace Settled

variable {scene : Scene α} (settled : scene.Settled)

include settled

/-- An update queues the slots of falling trees. -/
theorem mem_queue_advanced_iff (time : α) (category : Category) (slot : Nat) :
    slot ∈ ((scene.advanced time).2.registry.batch category).queue ↔
      scene.FallingSlot category slot := by
  have sound := settled.sound
  have moved : ((scene.advanced time).2.registry.batch category).slot? slot = _ :=
    Stand.slot?_advanceTrees sound.built (scene.stepTime time) sound.active_nodup category slot
  rw [((advanced_built sound time).consistent category).mem_queue_iff, moved]
  unfold FallingSlot
  change (∃ content, (scene.slot? category slot).map _ = _ ∧ _) ↔ _
  cases found : scene.slot? category slot with
  | none => simp
  | some content =>
      have idle := settled.queues.not_queued sound.built.consistent found
      simp only [Option.map_some, Option.some.injEq, exists_and_left, exists_eq_left',
        queued_rotated, idle, Bool.false_or, rotation?_eq sound, rotation?_isSome_iff]

private theorem slot?_update_of_not_falling (time : α) {category : Category} {slot : Nat}
    (still : ¬ scene.FallingSlot category slot) :
    (scene.step (.update time)).slot? category slot = scene.slot? category slot := by
  rw [slot?_update settled.sound]
  cases found : scene.slot? category slot with
  | none => rfl
  | some content =>
      have idle := settled.queues.not_queued settled.sound.built.consistent found
      rw [Option.map_some, rotation?_eq_none found still]
      simp [Stand.rotated, Batch.settled, ← idle]

private theorem isChanged_update_iff (time : α) {category : Category} {handle : Handle}
    (known : scene.handle? category = some handle) :
    (scene.step (.update time)).renderer.isChanged handle = true ↔
      scene.renderer.isChanged handle = true ∨ ∃ slot, scene.FallingSlot category slot := by
  rw [step_update]
  refine ((advanced_built settled.sound time).isChanged_flush_iff
    ((scene.handle_advanced time category).trans known)).trans ?_
  simp only [settled.mem_queue_advanced_iff]

private theorem uploaded?_update_of_not_falling (time : α) {handle : Handle} {index : Nat}
    (still : ∀ category, scene.handle? category = some handle →
      ¬ scene.FallingSlot category index) :
    (scene.step (.update time)).renderer.uploaded? handle index =
      scene.renderer.uploaded? handle index := by
  rw [step_update]
  refine Registry.uploaded?_flush_of_not_mem (advanced_built settled.sound time).consistent
    scene.renderer fun category drawnThere => ?_
  rw [settled.mem_queue_advanced_iff]
  exact still category ((scene.handle_advanced time category).symm.trans drawnThere)

private theorem update_of_not_falling (time : α)
    (still : ∀ id tree, scene.tree? id = some tree → tree.phase.isFalling = false) :
    scene.step (.update time) = scene := by
  have nobody : scene.population.animator.active = [] := by
    refine List.eq_nil_iff_forall_not_mem.mpr fun id member => ?_
    obtain ⟨tree, found, falling⟩ := (settled.sound.mem_active_iff id).mp member
    exact Bool.false_ne_true ((still id tree found).symm.trans falling)
  have same : scene.advanced time = ([], scene.population.stand) := by
    unfold advanced
    rw [nobody]
    rfl
  have nothing : scene.population.stand.registry.flush scene.renderer =
      (0, scene.population.stand.registry, scene.renderer) := settled.queues.flush scene.renderer
  rw [step_update, same]
  dsimp only
  rw [nothing, ← nobody]

end Settled

end Scene

/-! ## Steps that take the flags -/

/-- One thing that happens to a planted forest or to the flags of its renderer. -/
inductive ShownStep (α : Type) where
  | forest (step : ForestStep α)
  | take (handle : Handle)

namespace Scene

variable {α : Type}

def take (scene : Scene α) (handle : Handle) : Scene α :=
  { scene with renderer := (scene.renderer.takeChanged handle).2 }

/-- Takes the flag of one category's batch. -/
def takeOf (scene : Scene α) (category : Category) : Scene α :=
  match scene.handle? category with
  | some handle => scene.take handle
  | none => scene

/-- The scene once the flags of both batches have been taken. -/
def cleared (scene : Scene α) : Scene α :=
  (scene.takeOf .branch).takeOf .leaf

theorem Settled.take {scene : Scene α} (settled : scene.Settled) (handle : Handle) :
    (scene.take handle).Settled := by
  have uploaded (other : Handle) (index : Nat) :
      (scene.take handle).renderer.uploaded? other index =
        scene.renderer.uploaded? other index :=
    Renderer.uploaded?_modify_flag scene.renderer handle other index false
  have sound := settled.sound
  refine ⟨⟨sound.ids, sound.active_nodup, sound.mem_active_iff, ?_, ?_⟩, settled.queues⟩
  · refine ⟨sound.built.consistent, fun category => ?_, sound.built.apart⟩
    obtain ⟨own, known, held⟩ := sound.built.uploaded category
    refine ⟨own, known, fun slot content found => ?_⟩
    rw [uploaded]
    exact held slot content found
  · intro category slot content found
    have shown := sound.shown category slot content found
    unfold Scene.uploaded? Registry.uploaded? at shown ⊢
    simp only [uploaded]
    exact shown

private theorem isChanged_take (scene : Scene α) (handle other : Handle) :
    (scene.take handle).renderer.isChanged other =
      (decide (handle ≠ other) && scene.renderer.isChanged other) := by
  unfold take Renderer.takeChanged Renderer.isChanged
  rw [Renderer.batch?_modify]
  by_cases same : handle = other
  · rw [if_pos same]
    cases scene.renderer.batch? other <;> simp [same]
  · simp [same]

private theorem population_takeOf (scene : Scene α) (category : Category) :
    (scene.takeOf category).population = scene.population := by
  unfold takeOf
  split <;> rfl

private theorem population_cleared (scene : Scene α) :
    scene.cleared.population = scene.population :=
  (population_takeOf _ .leaf).trans (population_takeOf scene .branch)

theorem Settled.takeOf {scene : Scene α} (settled : scene.Settled) (category : Category) :
    (scene.takeOf category).Settled := by
  unfold Scene.takeOf
  split
  · exact settled.take _
  · exact settled

theorem Settled.cleared {scene : Scene α} (settled : scene.Settled) : scene.cleared.Settled :=
  (settled.takeOf .branch).takeOf .leaf

private theorem apart_of_isChanged_takeOf {scene : Scene α} {category : Category} {handle : Handle}
    (flagged : (scene.takeOf category).renderer.isChanged handle = true) :
    scene.handle? category ≠ some handle ∧ scene.renderer.isChanged handle = true := by
  unfold takeOf at flagged
  split at flagged
  · rename_i own known
    rw [isChanged_take, Bool.and_eq_true, decide_eq_true_iff] at flagged
    exact ⟨fun same => flagged.1 (Option.some.inj (known.symm.trans same)), flagged.2⟩
  · rename_i unbuilt
    refine ⟨fun same => ?_, flagged⟩
    cases unbuilt.symm.trans same

private theorem isChanged_cleared {scene : Scene α} {category : Category} {handle : Handle}
    (known : scene.handle? category = some handle) :
    scene.cleared.renderer.isChanged handle = false := by
  rw [← Bool.not_eq_true]
  intro flagged
  obtain ⟨notLeaf, between⟩ := apart_of_isChanged_takeOf flagged
  obtain ⟨notBranch, -⟩ := apart_of_isChanged_takeOf between
  unfold handle? at notLeaf
  rw [population_takeOf] at notLeaf
  cases category with
  | branch => exact notBranch known
  | leaf => exact notLeaf known

variable [Scalar α]

def showStep (scene : Scene α) : ShownStep α → Scene α
  | .forest step => scene.step step
  | .take handle => scene.take handle

def runShown (scene : Scene α) (steps : List (ShownStep α)) : Scene α :=
  steps.foldl showStep scene

theorem Settled.step {scene : Scene α} (settled : scene.Settled) (step : ForestStep α) :
    (scene.step step).Settled := by
  refine ⟨settled.sound.step step, ?_⟩
  cases step with
  | update time =>
      rw [step_update]
      exact Registry.queue_flush (advanced_built settled.sound time).consistent scene.renderer
  | fell id reference =>
      rcases scene.population.standing_or_not id with ⟨tree, found, standing⟩ | down
      · rw [step_fell_of_standing found standing]
        exact settled.queues
      · rw [step_fell_of_not_standing down]
        exact settled.queues

theorem Settled.showStep {scene : Scene α} (settled : scene.Settled) (step : ShownStep α) :
    (scene.showStep step).Settled := by
  cases step with
  | forest step => exact settled.step step
  | take handle => exact settled.take handle

theorem Settled.runShown {scene : Scene α} (settled : scene.Settled)
    (steps : List (ShownStep α)) : (scene.runShown steps).Settled := by
  induction steps generalizing scene with
  | nil => exact settled
  | cons step steps induction => exact induction (settled.showStep step)

variable {σ : Type} [Generator σ]

theorem Planted.settled {felling : Felling α} {planted : Scene α}
    (start : planted.Planted σ felling) : planted.Settled :=
  ⟨start.upright.sound, start.kept.queue⟩

/-! ## What an update touches -/

/-- What an update does to a scene whose flags are clear: it touches what falling trees own. -/
structure Touched (before after : Scene α) : Prop where
  /-- A category's batch is flagged exactly when a falling tree owns a slot of the category. -/
  flagged : ∀ category, ∃ handle, before.handle? category = some handle ∧
    after.handle? category = some handle ∧ before.renderer.isChanged handle = false ∧
    (after.renderer.isChanged handle = true ↔ ∃ slot, before.FallingSlot category slot)
  slots : ∀ category slot, after.slot? category slot ≠ before.slot? category slot →
    before.FallingSlot category slot
  drawn : ∀ handle index,
    after.renderer.uploaded? handle index ≠ before.renderer.uploaded? handle index →
      ∃ category, before.handle? category = some handle ∧ before.FallingSlot category index
  idle : (∀ id tree, before.tree? id = some tree → tree.phase.isFalling = false) →
    after = before

omit [Generator σ] in
theorem Settled.touched {scene : Scene α} (settled : scene.Settled)
    (clear : ∀ category handle, scene.handle? category = some handle →
      scene.renderer.isChanged handle = false) (time : α) :
    scene.Touched (scene.step (.update time)) where
  flagged category := by
    obtain ⟨handle, known, -⟩ := settled.sound.built.uploaded category
    have unflagged := clear category handle known
    refine ⟨handle, known, ?_, unflagged, ?_⟩
    · rw [step_update]
      refine (Registry.handle_flush _ scene.renderer category).trans ?_
      exact (scene.handle_advanced time category).trans known
    · rw [settled.isChanged_update_iff time known]
      simp [unflagged]
  slots category slot differ := by
    by_contra still
    exact differ (settled.slot?_update_of_not_falling time still)
  drawn handle index differ := by
    by_contra still
    exact differ (settled.uploaded?_update_of_not_falling time fun category known falling =>
      still ⟨category, known, falling⟩)
  idle := settled.update_of_not_falling time

/-- However trees have been felled, updated and drawn before, once the flags have been taken an
update flags the batches in which falling trees have slots, and touches no slot of another tree. -/
theorem touched_of_run {felling : Felling α} {planted : Scene α}
    (start : planted.Planted σ felling) (steps : List (ShownStep α)) (time : α) :
    (planted.runShown steps).cleared.Touched
      ((planted.runShown steps).cleared.step (.update time)) := by
  have settled := start.settled.runShown steps
  refine settled.cleared.touched (fun category handle known => ?_) time
  unfold handle? at known
  rw [population_cleared] at known
  exact isChanged_cleared known

/-- A pole that falls has a branch and no leaves. -/
theorem touched_of_run_pole :
    Scene.pole.Planted Cycle .standard ∧
    (Scene.pole.runShown [.forest (.fell 0 ⟨1, 0, 0⟩)]).cleared.Touched
      ((Scene.pole.runShown [.forest (.fell 0 ⟨1, 0, 0⟩)]).cleared.step (.update 1)) ∧
    ((Scene.pole.runShown [.forest (.fell 0 ⟨1, 0, 0⟩)]).cleared.step
      (.update 1)).renderer.batches.map (·.changed) = #[true, false] :=
  ⟨pole_planted, touched_of_run pole_planted _ 1, by decide +kernel⟩

end Scene

end Grove
