import Mathlib.Data.List.Induction
import Grove.Proofs.Instance.Mirror

/-!
# Displays

A display is a registry together with the renderer that shows it. Slots are added, written, built
and flushed in any order, and the renderer's flags are taken in between.

Each step either makes the renderer's copy anew or keeps it right: the slots that it has and that do
not wait to be flushed are shown where they are. The placement of a slot is the one that the steps
wrote last, and whatever changes in the renderer is flagged.
-/

set_option autoImplicit false

namespace Grove

/-- One thing that happens to a registry or its renderer. -/
inductive DisplayStep (α : Type) where
  | add (category : Category) (placement : Mat4 α) (owner : TreeId)
  | build
  | setLive (category : Category) (slot : Nat) (placement : Mat4 α)
  | moveOwned (owner : TreeId) (change : Mat4 α → Mat4 α)
  | flush
  | takeChanged (handle : Handle)

/-- Whether a step adds a slot to the batch of a category. -/
def DisplayStep.adds {α : Type} (category : Category) : DisplayStep α → Bool
  | .add other _ _ => decide (other = category)
  | _ => false

structure Display (α : Type) where
  registry : Registry α := .empty
  renderer : Renderer α

namespace Registry

variable {α : Type}

/-- The records of both batches agree, and each batch is of its kind. -/
structure Orderly (registry : Registry α) : Prop where
  consistent : registry.Consistent
  category : ∀ category, (registry.batch category).category = category

theorem Orderly.empty : (Registry.empty : Registry α).Orderly :=
  ⟨.empty, fun category => by cases category <;> rfl⟩

/-- Both batches are shown as far as they had slots when they were built, under handles of their
own. -/
structure Mirrored (registry : Registry α) (renderer : Renderer α) (capacity : Category → Nat) :
    Prop where
  shown : ∀ category, ∃ handle,
    (registry.batch category).Shown renderer handle (capacity category)
  apart : registry.branches.handle ≠ registry.leaves.handle

/-! ## Adding and writing slots -/

theorem Orderly.add {registry : Registry α} (orderly : registry.Orderly) (category : Category)
    (placement : Mat4 α) (owner : TreeId) : (registry.add category placement owner).2.Orderly := by
  refine ⟨orderly.consistent.add category placement owner, fun other => ?_⟩
  rw [batch_add]
  split <;> simp [orderly.category]

theorem batch_setLive (registry : Registry α) (category : Category) (slot : Nat)
    (placement : Mat4 α) (other : Category) :
    (registry.setLive category slot placement).2.batch other =
      if category = other then ((registry.batch other).setLive slot placement).2
      else registry.batch other := by
  cases category <;> cases other <;> rfl

theorem Orderly.setLive {registry : Registry α} (orderly : registry.Orderly) (category : Category)
    (slot : Nat) (placement : Mat4 α) :
    (registry.setLive category slot placement).2.Orderly := by
  refine ⟨fun other => ?_, fun other => ?_⟩
  · rw [batch_setLive]
    split
    · exact (orderly.consistent other).setLive slot placement
    · exact orderly.consistent other
  · rw [batch_setLive]
    split <;> simp [orderly.category]

theorem Orderly.moveOwned {registry : Registry α} (orderly : registry.Orderly) (owner : TreeId)
    (change : Mat4 α → Mat4 α) : (registry.moveOwned owner change).2.Orderly :=
  ⟨orderly.consistent.moveOwned owner change, fun category => by
    simp [batch_moveOwned, orderly.category]⟩

theorem Mirrored.of_shown {registry changed : Registry α} {renderer other : Renderer α}
    {capacity : Category → Nat} (mirrored : registry.Mirrored renderer capacity)
    (shown : ∀ category handle,
      (registry.batch category).Shown renderer handle (capacity category) →
        (changed.batch category).Shown other handle (capacity category)) :
    changed.Mirrored other capacity := by
  obtain ⟨branchHandle, branches⟩ := mirrored.shown .branch
  obtain ⟨leafHandle, leaves⟩ := mirrored.shown .leaf
  have sameBranches := (shown .branch branchHandle branches).built.trans branches.built.symm
  have sameLeaves := (shown .leaf leafHandle leaves).built.trans leaves.built.symm
  refine ⟨fun category => ?_, fun same => ?_⟩
  · obtain ⟨handle, old⟩ := mirrored.shown category
    exact ⟨handle, shown category handle old⟩
  · exact mirrored.apart (sameBranches.symm.trans (same.trans sameLeaves))

theorem Mirrored.add {registry : Registry α} {renderer : Renderer α} {capacity : Category → Nat}
    (mirrored : registry.Mirrored renderer capacity) (category : Category) (placement : Mat4 α)
    (owner : TreeId) :
    (registry.add category placement owner).2.Mirrored renderer capacity := by
  refine mirrored.of_shown fun other handle shown => ?_
  rw [batch_add]
  split
  · exact shown.add placement owner
  · exact shown

theorem Mirrored.setLive {registry : Registry α} {renderer : Renderer α}
    {capacity : Category → Nat} (mirrored : registry.Mirrored renderer capacity)
    (category : Category) (slot : Nat) (placement : Mat4 α) :
    (registry.setLive category slot placement).2.Mirrored renderer capacity := by
  refine mirrored.of_shown fun other handle shown => ?_
  rw [batch_setLive]
  split
  · exact shown.setLive slot placement
  · exact shown

theorem Mirrored.moveOwned {registry : Registry α} {renderer : Renderer α}
    {capacity : Category → Nat} (mirrored : registry.Mirrored renderer capacity)
    (consistent : registry.Consistent) (owner : TreeId) (change : Mat4 α → Mat4 α) :
    (registry.moveOwned owner change).2.Mirrored renderer capacity := by
  refine mirrored.of_shown fun category handle shown => ?_
  rw [batch_moveOwned]
  exact shown.moveOwned (consistent category) owner change

theorem Mirrored.takeChanged {registry : Registry α} {renderer : Renderer α}
    {capacity : Category → Nat} (mirrored : registry.Mirrored renderer capacity)
    (handle : Handle) : registry.Mirrored (renderer.takeChanged handle).2 capacity := by
  refine mirrored.of_shown fun category own shown => ⟨shown.built, ?_, shown.within, ?_⟩
  · rw [(Renderer.Frame.takeChanged renderer handle).shape]
    exact shown.shape
  · intro slot content inside found idle
    exact (Renderer.uploaded?_modify_flag renderer handle own slot false).trans
      (shown.current slot content inside found idle)

/-! ## Flushing -/

theorem Orderly.flush {registry : Registry α} (orderly : registry.Orderly)
    (renderer : Renderer α) : (registry.flush renderer).2.1.Orderly := by
  refine ⟨fun category => ?_, fun category => ?_⟩
  · rw [batch_flush]
    exact (orderly.consistent category).flush _
  · rw [batch_flush, Batch.category_flush (orderly.consistent category)]
    exact orderly.category category

/-- The flush of one batch does not touch what the renderer has of the other. -/
theorem Mirrored.flush {registry : Registry α} {renderer : Renderer α}
    {capacity : Category → Nat} (mirrored : registry.Mirrored renderer capacity)
    (consistent : registry.Consistent) :
    (registry.flush renderer).2.1.Mirrored (registry.flush renderer).2.2 capacity := by
  refine mirrored.of_shown fun category handle shown => ?_
  rw [batch_flush]
  cases category with
  | branch =>
      obtain ⟨other, leaves⟩ := mirrored.shown .leaf
      have apart : other ≠ handle := fun same =>
        mirrored.apart (shown.built.trans (leaves.built.trans (congrArg some same)).symm)
      have frame := Batch.frame_flush (consistent .leaf) leaves.built
        (registry.flushedBranches renderer)
      exact (shown.flush (consistent .branch)).of_batch_eq (frame.others handle apart)
  | leaf =>
      obtain ⟨other, branches⟩ := mirrored.shown .branch
      have apart : other ≠ handle := fun same =>
        mirrored.apart ((branches.built.trans (congrArg some same)).trans shown.built.symm)
      have frame := Batch.frame_flush (consistent .branch) branches.built renderer
      exact (shown.of_batch_eq (frame.others handle apart)).flush (consistent .leaf)

theorem noted_flush {registry : Registry α} (consistent : registry.Consistent)
    (renderer : Renderer α) (handle : Handle) :
    renderer.Noted (registry.flush renderer).2.2 handle :=
  (Batch.noted_flush (consistent .branch) renderer handle).trans
    (Batch.noted_flush (consistent .leaf) _ handle)

theorem queue_flush {registry : Registry α} (consistent : registry.Consistent)
    (renderer : Renderer α) (category : Category) :
    ((registry.flush renderer).2.1.batch category).queue = #[] := by
  rw [batch_flush]
  exact Batch.queue_flush (consistent category) _

/-! ## Building -/

variable [Scalar α]

theorem Orderly.build {registry : Registry α} (orderly : registry.Orderly)
    (renderer : Renderer α) : (registry.build renderer).1.Orderly :=
  ⟨(orderly.consistent.build renderer).consistent, fun category => by
    cases category with
    | branch => exact orderly.category .branch
    | leaf => exact orderly.category .leaf⟩

theorem Mirrored.build {registry : Registry α} (consistent : registry.Consistent)
    (renderer : Renderer α) :
    (registry.build renderer).1.Mirrored (registry.build renderer).2
      fun category => (registry.batch category).size where
  shown category := by
    cases category with
    | branch =>
        have older : Handle.mk renderer.batches.size ≠
            ⟨(registry.branches.build renderer).2.batches.size⟩ := by
          simp [Batch.size_build]
        exact ⟨_, (Batch.Shown.build registry.branches renderer).of_batch_eq
          (Batch.batch?_build_of_ne registry.leaves _ older)⟩
    | leaf => exact ⟨_, Batch.Shown.build registry.leaves _⟩
  apart := (consistent.build renderer).apart

private theorem noted_build (registry : Registry α) (renderer : Renderer α) (handle : Handle) :
    renderer.Noted (registry.build renderer).2 handle :=
  (Batch.noted_build registry.branches renderer handle).trans
    (Batch.noted_build registry.leaves _ handle)

end Registry

namespace Display

variable {α : Type}

def batch (display : Display α) (category : Category) : Batch α :=
  display.registry.batch category

def live? (display : Display α) (category : Category) (slot : Nat) : Option (Mat4 α) :=
  (display.registry.slot? category slot).map (·.live)

/-- The placement that a step writes to a slot, if it writes to it. -/
def written? (display : Display α) (category : Category) (slot : Nat) :
    DisplayStep α → Option (Mat4 α)
  | .add other placement _ =>
      if other = category ∧ slot = (display.batch category).size then some placement else none
  | .setLive other index placement =>
      if other = category ∧ index = slot ∧ slot < (display.batch category).size then
        some placement
      else none
  | .moveOwned owner change =>
      ((display.registry.slot? category slot).filter (·.owner == owner)).map (change ·.base)
  | _ => none

variable [Scalar α]

def step (display : Display α) : DisplayStep α → Display α
  | .add category placement owner =>
      { display with registry := (display.registry.add category placement owner).2 }
  | .build =>
      let (registry, renderer) := display.registry.build display.renderer
      { registry, renderer }
  | .setLive category slot placement =>
      { display with registry := (display.registry.setLive category slot placement).2 }
  | .moveOwned owner change =>
      { display with registry := (display.registry.moveOwned owner change).2 }
  | .flush =>
      let (_, registry, renderer) := display.registry.flush display.renderer
      { registry, renderer }
  | .takeChanged handle =>
      { display with renderer := (display.renderer.takeChanged handle).2 }

def run (display : Display α) (steps : List (DisplayStep α)) : Display α :=
  steps.foldl step display

theorem run_concat (display : Display α) (steps : List (DisplayStep α)) (last : DisplayStep α) :
    display.run (steps ++ [last]) = (display.run steps).step last := by
  simp [run]

/-- The placement that was written last to a slot, in the course of some steps. -/
def lastWritten? (display : Display α) (category : Category) (slot : Nat) :
    List (DisplayStep α) → Option (Mat4 α)
  | [] => none
  | first :: rest =>
      ((display.step first).lastWritten? category slot rest).or
        (display.written? category slot first)

/-! ## What the registry knows -/

private theorem orderly_step {display : Display α} (orderly : display.registry.Orderly)
    (step : DisplayStep α) : (display.step step).registry.Orderly := by
  cases step with
  | add category placement owner => exact orderly.add category placement owner
  | build => exact orderly.build display.renderer
  | setLive category slot placement => exact orderly.setLive category slot placement
  | moveOwned owner change => exact orderly.moveOwned owner change
  | flush => exact orderly.flush display.renderer
  | takeChanged handle => exact orderly

private theorem orderly_run {display : Display α} (orderly : display.registry.Orderly)
    (steps : List (DisplayStep α)) : (display.run steps).registry.Orderly := by
  induction steps generalizing display with
  | nil => exact orderly
  | cons step steps induction => exact induction (orderly_step orderly step)

theorem orderly_run_empty (renderer : Renderer α) (steps : List (DisplayStep α)) :
    (run { renderer } steps).registry.Orderly :=
  orderly_run .empty steps

theorem size_step {display : Display α} (orderly : display.registry.Orderly)
    (step : DisplayStep α) (category : Category) :
    ((display.step step).batch category).size =
      (display.batch category).size + if step.adds category then 1 else 0 := by
  cases step with
  | add other placement owner =>
      simp only [batch, Display.step, Registry.batch_add, DisplayStep.adds, decide_eq_true_eq]
      by_cases same : other = category
      · rw [if_pos same, if_pos same, Batch.size_add]
      · rw [if_neg same, if_neg same, Nat.add_zero]
  | build => cases category <;> exact Array.size_map
  | setLive other index placement =>
      simp only [batch, Display.step, Registry.batch_setLive, DisplayStep.adds]
      split <;> simp
  | moveOwned owner change =>
      simp [batch, Display.step, Registry.batch_moveOwned, DisplayStep.adds]
  | flush =>
      simp [batch, Display.step, Registry.batch_flush,
        Batch.size_flush (orderly.consistent category), DisplayStep.adds]
  | takeChanged handle => rfl

/-- A batch has the slots that it had, and those that have been added. -/
theorem size_run {display : Display α} (orderly : display.registry.Orderly)
    (steps : List (DisplayStep α)) (category : Category) :
    ((display.run steps).batch category).size =
      (display.batch category).size + steps.countP (·.adds category) := by
  induction steps generalizing display with
  | nil => rfl
  | cons step steps induction =>
      refine (induction (orderly_step orderly step)).trans ?_
      rw [size_step orderly, List.countP_cons]
      omega

/-- After a step a slot is where the step put it, or where it was. -/
theorem live?_step {display : Display α} (orderly : display.registry.Orderly)
    (category : Category) (slot : Nat) (step : DisplayStep α) :
    (display.step step).live? category slot =
      (display.written? category slot step).or (display.live? category slot) := by
  cases step with
  | add other placement owner =>
      simp only [live?, Display.step, written?, Registry.slot?, Registry.batch_add, batch]
      by_cases same : other = category
      · simp only [same, if_true, Batch.slot?_add, true_and]
        split <;> simp
      · simp [same]
  | build =>
      simp only [live?, Display.step, written?, Registry.slot?_build, Option.none_or]
      cases display.registry.slot? category slot <;> rfl
  | setLive other index placement =>
      simp only [live?, Display.step, written?, Registry.slot?, Registry.batch_setLive, batch]
      by_cases same : other = category
      · simp only [same, if_true, Batch.slot?_setLive, true_and]
        by_cases here : index = slot
        · cases found : (display.registry.batch category).slot? slot with
          | none => simp [Nat.not_lt.mpr (Batch.slot?_eq_none_iff.mp found)]
          | some content => simp [here, Batch.lt_size_of_slot? found, Batch.flagged]
        · simp [here]
      · simp [same]
  | moveOwned owner change =>
      simp only [live?, Display.step, written?,
        Registry.slot?_moveOwned orderly.consistent]
      cases display.registry.slot? category slot with
      | none => rfl
      | some content =>
          by_cases owned : content.owner = owner <;>
            simp [Option.filter, owned, Batch.moved, Batch.flagged]
  | flush =>
      simp only [live?, Display.step, written?, Registry.slot?_flush orderly.consistent,
        Option.none_or]
      cases display.registry.slot? category slot <;> rfl
  | takeChanged handle => rfl

private theorem live?_run {display : Display α} (orderly : display.registry.Orderly)
    (category : Category) (slot : Nat) (steps : List (DisplayStep α)) :
    (display.run steps).live? category slot =
      (display.lastWritten? category slot steps).or (display.live? category slot) := by
  induction steps generalizing display with
  | nil => rfl
  | cons first rest induction =>
      refine (induction (orderly_step orderly first)).trans ?_
      rw [live?_step orderly, lastWritten?, Option.or_assoc]

private theorem live?_eq_lastWritten (renderer : Renderer α) (category : Category) (slot : Nat)
    (steps : List (DisplayStep α)) :
    (run { renderer } steps).live? category slot =
      lastWritten? { renderer } category slot steps := by
  have nothing : live? { renderer } category slot = none := by
    cases category <;> simp [live?, Registry.slot?, Registry.empty, Registry.batch, Batch.slot?]
  have start : ({ renderer } : Display α).registry.Orderly := .empty
  rw [live?_run start, nothing, Option.or_none]

/-! ## What the renderer shows -/

private theorem mirrored_step {display : Display α} {capacity : Category → Nat}
    (mirrored : display.registry.Mirrored display.renderer capacity)
    (orderly : display.registry.Orderly) {step : DisplayStep α} (kept : step ≠ .build) :
    (display.step step).registry.Mirrored (display.step step).renderer capacity := by
  cases step with
  | add category placement owner => exact mirrored.add category placement owner
  | build => cases kept rfl
  | setLive category slot placement => exact mirrored.setLive category slot placement
  | moveOwned owner change => exact mirrored.moveOwned orderly.consistent owner change
  | flush => exact mirrored.flush orderly.consistent
  | takeChanged handle => exact mirrored.takeChanged handle

private theorem handle_step (display : Display α) {step : DisplayStep α} (kept : step ≠ .build)
    (category : Category) :
    ((display.step step).batch category).handle = (display.batch category).handle := by
  cases step with
  | add other placement owner =>
      simp only [batch, Display.step, Registry.batch_add]
      split <;> simp
  | build => cases kept rfl
  | setLive other slot placement =>
      simp only [batch, Display.step, Registry.batch_setLive]
      split <;> simp
  | moveOwned owner change => exact Registry.handle_moveOwned display.registry owner change category
  | flush => exact Registry.handle_flush display.registry display.renderer category
  | takeChanged handle => rfl

/-- A display was never built, or it shows the slots that it had when it was built last. -/
theorem unbuilt_or_mirrored (renderer : Renderer α) (steps : List (DisplayStep α)) :
    (.build ∉ steps ∧ ∀ category, ((run { renderer } steps).batch category).handle = none) ∨
    ∃ earlier later, steps = earlier ++ .build :: later ∧ .build ∉ later ∧
      (run { renderer } steps).registry.Mirrored (run { renderer } steps).renderer
        fun category => ((run { renderer } earlier).batch category).size := by
  induction steps using List.reverseRecOn with
  | nil => exact .inl ⟨by simp, fun category => by cases category <;> rfl⟩
  | append_singleton steps last induction =>
      have orderly := orderly_run_empty renderer steps
      simp only [run_concat]
      by_cases built : last = .build
      · subst built
        exact .inr ⟨steps, [], rfl, by simp, .build orderly.consistent _⟩
      · rcases induction with ⟨never, unbuilt⟩ | ⟨earlier, later, rfl, never, mirrored⟩
        · refine .inl ⟨by simp [never, Ne.symm built], fun category => ?_⟩
          rw [handle_step _ built]
          exact unbuilt category
        · exact .inr ⟨earlier, later ++ [last], by simp, by simp [never, Ne.symm built],
            mirrored_step mirrored orderly built⟩

/-! ## What is flagged -/

private theorem noted_step {display : Display α} (orderly : display.registry.Orderly)
    {handle : Handle} {step : DisplayStep α} (kept : step ≠ .takeChanged handle) :
    display.renderer.Noted (display.step step).renderer handle := by
  cases step with
  | build => exact Registry.noted_build display.registry display.renderer handle
  | flush => exact Registry.noted_flush orderly.consistent display.renderer handle
  | takeChanged other =>
      have apart : other ≠ handle := fun same => kept (congrArg _ same)
      exact .inr ((Renderer.Frame.takeChanged display.renderer other).others handle apart)
  | _ => exact .refl display.renderer handle

private theorem noted_run {display : Display α} (orderly : display.registry.Orderly)
    {handle : Handle} {steps : List (DisplayStep α)} (kept : .takeChanged handle ∉ steps) :
    display.renderer.Noted (display.run steps).renderer handle := by
  induction steps generalizing display with
  | nil => exact .refl display.renderer handle
  | cons step steps induction =>
      rw [List.mem_cons, not_or] at kept
      exact (noted_step orderly (Ne.symm kept.1)).trans
        (induction (orderly_step orderly step) kept.2)

/-! ## What can be relied on -/

omit [Scalar α] in
/-- What a display shows where, and what it still has to show. -/
structure Coherent (display : Display α) : Prop where
  queue_nodup : ∀ category, (display.batch category).queue.toList.Nodup
  mem_queue_iff : ∀ category slot, slot ∈ (display.batch category).queue ↔
    ∃ content, (display.batch category).slot? slot = some content ∧ content.queued = true
  unbuilt : ∀ category, (display.batch category).handle = none →
    (display.batch category).queue = #[]
  current : ∀ category handle slot placement, (display.batch category).handle = some handle →
    display.renderer.uploaded? handle slot = some placement →
      slot ∉ (display.batch category).queue → display.live? category slot = some placement

/-- What a display owes to those that give it some steps. -/
structure Faithful (start : Display α) (steps : List (DisplayStep α)) : Prop where
  coherent : (start.run steps).Coherent
  /-- Every column of a batch has an entry for each slot that was added, and no others. -/
  columns : ∀ category {β : Type} (column : Slot α → β),
    (((start.run steps).batch category).slots.map column).size =
      (start.batch category).size + steps.countP (·.adds category)
  built_iff : ∀ category, ((start.run steps).batch category).handle.isSome ↔ .build ∈ steps
  /-- The renderer has the slots that there were when the batch was built last. -/
  capacity : ∀ category handle, ((start.run steps).batch category).handle = some handle →
    ∃ earlier later drawn, steps = earlier ++ .build :: later ∧ .build ∉ later ∧
      (start.run steps).renderer.batch? handle = some drawn ∧
      drawn.instances.size = ((start.run earlier).batch category).size
  /-- After a flush every slot is shown where it is, which is where it was put last. -/
  flushed : ∀ category handle slot placement,
    ((start.run steps).batch category).handle = some handle →
    ((start.run steps).step .flush).renderer.uploaded? handle slot = some placement →
      ((start.run steps).step .flush).live? category slot = some placement ∧
      start.lastWritten? category slot steps = some placement
  /-- Between two looks at the flag of a batch, what has changed has been flagged. -/
  flagged : ∀ handle between, .takeChanged handle ∉ between →
    let first := (start.run steps).step (.takeChanged handle)
    let second := first.run between
    (second.renderer.batch? handle).map (·.instances) ≠
      (first.renderer.batch? handle).map (·.instances) →
        (second.renderer.takeChanged handle).1 = true

/-- In a display that starts empty, what is shown of a slot that does not wait to be flushed is where
the slot is. -/
theorem live?_of_uploaded {renderer : Renderer α} {steps : List (DisplayStep α)}
    {category : Category} {handle : Handle} {slot : Nat} {placement : Mat4 α}
    (built : ((run { renderer } steps).batch category).handle = some handle)
    (stored : (run { renderer } steps).renderer.uploaded? handle slot = some placement)
    (idle : slot ∉ ((run { renderer } steps).batch category).queue) :
    (run { renderer } steps).live? category slot = some placement := by
  have orderly := orderly_run_empty renderer steps
  rcases unbuilt_or_mirrored renderer steps with ⟨-, unbuilt⟩ | ⟨_, _, -, -, mirrored⟩
  · cases (unbuilt category).symm.trans built
  · obtain ⟨known, shown⟩ := mirrored.shown category
    cases shown.built.symm.trans built
    exact shown.live_of_uploaded (orderly.consistent category) stored idle

private theorem coherent_run (renderer : Renderer α) (steps : List (DisplayStep α)) :
    (run { renderer } steps).Coherent := by
  have consistent := (orderly_run_empty renderer steps).consistent
  exact {
    queue_nodup := fun category => (consistent category).queue_nodup
    mem_queue_iff := fun category => (consistent category).mem_queue_iff
    unbuilt := fun category => (consistent category).unbuilt
    current := fun _ _ _ _ => live?_of_uploaded }

/-- Whatever is added, written, built and flushed, and in whatever order, the renderer shows what the
registry holds as far as it has been flushed. -/
theorem faithful_of_run (renderer : Renderer α) (steps : List (DisplayStep α)) :
    Faithful { renderer } steps where
  coherent := coherent_run renderer steps
  columns category _ column := Array.size_map.trans (size_run .empty steps category)
  built_iff category := by
    rcases unbuilt_or_mirrored renderer steps with ⟨never, unbuilt⟩ | ⟨_, _, rfl, -, mirrored⟩
    · simp [never, unbuilt]
    · obtain ⟨handle, shown⟩ := mirrored.shown category
      simp [batch, shown.built]
  capacity category handle built := by
    rcases unbuilt_or_mirrored renderer steps with
      ⟨-, unbuilt⟩ | ⟨earlier, later, split, never, mirrored⟩
    · cases (unbuilt category).symm.trans built
    · obtain ⟨known, shown⟩ := mirrored.shown category
      cases shown.built.symm.trans built
      obtain ⟨drawn, found, same⟩ := Option.map_eq_some_iff.mp shown.shape
      exact ⟨earlier, later, drawn, split, never, found, congrArg Prod.snd same⟩
  flushed category handle slot placement built stored := by
    have orderly := orderly_run_empty renderer steps
    have shown : ((run { renderer } steps).step .flush).live? category slot = some placement := by
      rw [← run_concat] at stored ⊢
      refine live?_of_uploaded ?_ stored ?_
      · rw [run_concat, handle_step _ (by simp)]
        exact built
      · rw [run_concat]
        simp [batch, step, Registry.queue_flush orderly.consistent]
    refine ⟨shown, ?_⟩
    rwa [live?_step orderly, live?_eq_lastWritten] at shown
  flagged handle between untaken := by
    intro first second differ
    have orderly : first.registry.Orderly := orderly_run_empty renderer steps
    rcases noted_run orderly untaken with changed | kept
    · exact changed
    · exact absurd (congrArg _ kept) differ

end Display

end Grove
