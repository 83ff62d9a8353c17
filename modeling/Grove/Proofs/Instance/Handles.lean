import Grove.Proofs.Instance.Display

/-!
# What does not depend on handles

A handle says where in the renderer a batch is drawn, and nothing else: what a batch records, what
its operations return and what they draw are the same for any two batches that differ in their
handles only. Registries are compared in the same way.

What an operation does to the renderer is told by what each of the renderer's batches holds
afterwards.
-/

set_option autoImplicit false

namespace Grove

namespace Batch

variable {α : Type}

/-- The batch with nothing kept of its handle but whether it has one. -/
def anonymous (batch : Batch α) : Batch α :=
  { batch with handle := batch.handle.map fun _ => ⟨0⟩ }

/-- Two batches that differ at most in their handles, where both have one. -/
def Alike (left right : Batch α) : Prop :=
  left.anonymous = right.anonymous

theorem Alike.isSome_handle {left right : Batch α} (alike : left.Alike right) :
    left.handle.isSome = right.handle.isSome := by
  simpa [anonymous] using congrArg (fun batch : Batch α => batch.handle.isSome) alike

theorem Alike.exists_handle {left right : Batch α} (alike : left.Alike right) {handle : Handle}
    (built : left.handle = some handle) : ∃ other, right.handle = some other :=
  Option.isSome_iff_exists.mp (by rw [← alike.isSome_handle, built]; rfl)

theorem Alike.congr {left right : Batch α} (alike : left.Alike right) {β : Type}
    (read : Batch α → β) : read left.anonymous = read right.anonymous :=
  congrArg read alike

theorem Alike.slots {left right : Batch α} (alike : left.Alike right) : left.slots = right.slots :=
  alike.congr Batch.slots

theorem Alike.queue {left right : Batch α} (alike : left.Alike right) : left.queue = right.queue :=
  alike.congr Batch.queue

theorem Alike.category {left right : Batch α} (alike : left.Alike right) :
    left.category = right.category :=
  alike.congr Batch.category

theorem Alike.owner? {left right : Batch α} (alike : left.Alike right) (slot : Nat) :
    left.owner? slot = right.owner? slot := by
  unfold Batch.owner? slot?
  rw [alike.slots]

/-! ## Adding and writing slots -/

private theorem add_anonymous (batch : Batch α) (placement : Mat4 α) (owner : TreeId) :
    batch.anonymous.add placement owner =
      ((batch.add placement owner).1, (batch.add placement owner).2.anonymous) := by
  obtain ⟨category, slots, spans, contiguous, handle, queue⟩ := batch
  unfold Batch.add
  dsimp only [anonymous, size]
  split
  · rfl
  · next span _ => by_cases adjacent : span.stop = slots.size <;> simp [adjacent]

theorem Alike.add {left right : Batch α} (alike : left.Alike right) (placement : Mat4 α)
    (owner : TreeId) :
    (left.add placement owner).1 = (right.add placement owner).1 ∧
      (left.add placement owner).2.Alike (right.add placement owner).2 := by
  have same := alike.congr (Batch.add · placement owner)
  rw [add_anonymous, add_anonymous] at same
  exact Prod.ext_iff.mp same

private theorem enqueue_anonymous (batch : Batch α) (slot : Nat) :
    batch.anonymous.enqueue slot = (batch.enqueue slot).anonymous := by
  obtain ⟨category, slots, spans, contiguous, handle, queue⟩ := batch
  unfold Batch.enqueue
  simp only [anonymous, Option.isSome_map, slot?]
  by_cases noted : (handle.isSome && !(slots[slot]?).any (·.queued)) = true <;> simp [noted]

private theorem setLive_anonymous (batch : Batch α) (slot : Nat) (placement : Mat4 α) :
    batch.anonymous.setLive slot placement =
      ((batch.setLive slot placement).1, (batch.setLive slot placement).2.anonymous) := by
  unfold Batch.setLive
  simp only [show batch.anonymous.size = batch.size from rfl]
  split
  · exact congrArg _ (enqueue_anonymous (batch.modify slot _) slot)
  · rfl

theorem Alike.setLive {left right : Batch α} (alike : left.Alike right) (slot : Nat)
    (placement : Mat4 α) :
    (left.setLive slot placement).1 = (right.setLive slot placement).1 ∧
      (left.setLive slot placement).2.Alike (right.setLive slot placement).2 := by
  have same := alike.congr (Batch.setLive · slot placement)
  rw [setLive_anonymous, setLive_anonymous] at same
  exact Prod.ext_iff.mp same

private theorem moveOwned_anonymous (batch : Batch α) (owner : TreeId) (change : Mat4 α → Mat4 α) :
    batch.anonymous.moveOwned owner change =
      ((batch.moveOwned owner change).1, (batch.moveOwned owner change).2.anonymous) := by
  have moved (slots : List Nat) : slots.foldl (moveSlot · change) batch.anonymous =
      (slots.foldl (moveSlot · change) batch).anonymous := by
    induction slots generalizing batch with
    | nil => rfl
    | cons slot slots induction =>
        have first : batch.anonymous.moveSlot change slot =
            (batch.moveSlot change slot).anonymous :=
          enqueue_anonymous (batch.modify slot _) slot
        rw [List.foldl_cons, List.foldl_cons, first, induction]
  exact Prod.ext rfl (moved (batch.slotsOf owner))

theorem Alike.moveOwned {left right : Batch α} (alike : left.Alike right) (owner : TreeId)
    (change : Mat4 α → Mat4 α) :
    (left.moveOwned owner change).1 = (right.moveOwned owner change).1 ∧
      (left.moveOwned owner change).2.Alike (right.moveOwned owner change).2 := by
  have same := alike.congr (Batch.moveOwned · owner change)
  rw [moveOwned_anonymous, moveOwned_anonymous] at same
  exact Prod.ext_iff.mp same

/-! ## Drawing -/

/-- What becomes of drawn instances when some slots are uploaded. -/
def overwrite (batch : Batch α) (instances : Array (Mat4 α)) (slots : List Nat) :
    Array (Mat4 α) :=
  slots.foldl (fun instances slot =>
    match batch.slot? slot with
    | some content => instances.setIfInBounds slot content.live
    | none => instances) instances

private theorem batch?_foldl_upload (batch : Batch α) (handle : Handle) (slots : List Nat)
    (renderer : Renderer α) (other : Handle) :
    (slots.foldl (batch.upload handle) renderer).batch? other =
      if handle = other then
        (renderer.batch? other).map fun drawn =>
          { drawn with instances := batch.overwrite drawn.instances slots }
      else renderer.batch? other := by
  induction slots generalizing renderer with
  | nil => simp [overwrite]
  | cons slot slots induction =>
      rw [List.foldl_cons, induction]
      unfold upload
      cases found : batch.slot? slot with
      | none => simp only [overwrite, List.foldl_cons, found]
      | some content =>
          simp only [Renderer.write, Renderer.batch?_modify, overwrite, List.foldl_cons, found]
          split
          · cases renderer.batch? other <;> rfl
          · rfl

/-- What becomes of a drawn batch by a flush. -/
def redraw (batch : Batch α) (drawn : DrawBatch α) : DrawBatch α :=
  if batch.queue.isEmpty then drawn
  else { drawn with
    instances := batch.overwrite drawn.instances batch.queue.toList
    changed := true }

theorem Alike.redraw {left right : Batch α} (alike : left.Alike right) :
    left.redraw = right.redraw := by
  funext drawn
  unfold Batch.redraw overwrite slot?
  rw [alike.slots, alike.queue]

theorem batch?_flush (batch : Batch α) (renderer : Renderer α) (other : Handle) :
    (batch.flush renderer).2.2.batch? other =
      if batch.handle = some other then (renderer.batch? other).map batch.redraw
      else renderer.batch? other := by
  by_cases nothing : batch.queue = #[]
  · rw [flush_of_queue_empty nothing]
    have same : batch.redraw = id := by
      funext drawn
      simp [Batch.redraw, nothing]
    simp [same]
  · rcases Option.eq_none_or_eq_some batch.handle with unbuilt | ⟨handle, built⟩
    · simp [Batch.flush, unbuilt]
    · have waiting : batch.queue.isEmpty = false := by simpa using nothing
      rw [flush_of_queued built nothing, built]
      simp only [Renderer.markChanged, Renderer.batch?_modify, batch?_foldl_upload,
        Option.some.injEq]
      split
      · cases renderer.batch? other <;> simp [Batch.redraw, waiting]
      · rfl

theorem Alike.flush {left right : Batch α} (alike : left.Alike right)
    (renderer other : Renderer α) :
    (left.flush renderer).1 = (right.flush other).1 ∧
      (left.flush renderer).2.1.Alike (right.flush other).2.1 := by
  by_cases nothing : left.queue = #[]
  · rw [flush_of_queue_empty nothing, flush_of_queue_empty (alike.queue.symm.trans nothing)]
    exact ⟨rfl, alike⟩
  · have waiting : right.queue ≠ #[] := alike.queue ▸ nothing
    cases built : left.handle with
    | none =>
        have unbuilt : right.handle = none := by
          simpa [built] using alike.isSome_handle.symm
        simp only [Batch.flush, built, unbuilt, true_and]
        exact alike
    | some handle =>
        obtain ⟨known, found⟩ := alike.exists_handle built
        rw [flush_of_queued built nothing, flush_of_queued found waiting]
        refine ⟨congrArg Array.size alike.queue, ?_⟩
        have same := alike.congr fun batch =>
          left.queue.toList.foldl settle { batch with queue := #[] }
        simp only [foldl_settle_eq, ← alike.queue] at same ⊢
        exact same

variable [Scalar α]

/-- What a batch draws when it is built. -/
def drawing (batch : Batch α) : DrawBatch α :=
  { category := batch.category
    instances := batch.overwrite (Array.replicate batch.size .zero) (List.range batch.size)
    changed := true }

theorem Alike.drawing {left right : Batch α} (alike : left.Alike right) :
    left.drawing = right.drawing := by
  unfold Batch.drawing overwrite slot? size
  rw [alike.slots, alike.category]

theorem batch?_build (batch : Batch α) (renderer : Renderer α) (other : Handle) :
    (batch.build renderer).2.batch? other =
      if other = ⟨renderer.batches.size⟩ then some batch.drawing else renderer.batch? other := by
  by_cases new : other = ⟨renderer.batches.size⟩
  · subst new
    change (Renderer.markChanged _ ⟨renderer.batches.size⟩).batch? _ = _
    rw [if_pos rfl, Renderer.markChanged, Renderer.batch?_modify, if_pos rfl]
    change ((List.foldl (batch.upload ⟨renderer.batches.size⟩)
      (renderer.create batch.category batch.size).2 _).batch? _).map _ = _
    rw [batch?_foldl_upload, if_pos rfl, Renderer.batch?_create, if_pos rfl]
    rfl
  · rw [if_neg new, batch?_build_of_ne batch renderer new]

theorem Alike.build {left right : Batch α} (alike : left.Alike right)
    (renderer other : Renderer α) : (left.build renderer).1.Alike (right.build other).1 := by
  unfold Alike
  exact alike.congr fun batch =>
    { batch with slots := batch.slots.map settled, handle := some ⟨0⟩, queue := #[] }

end Batch

/-! ## Registries -/

namespace Registry

variable {α : Type}

/-- Two registries that differ at most in the handles of their batches. -/
def Alike (left right : Registry α) : Prop :=
  ∀ category, (left.batch category).Alike (right.batch category)

theorem Alike.add {left right : Registry α} (alike : left.Alike right) (category : Category)
    (placement : Mat4 α) (owner : TreeId) :
    (left.add category placement owner).1 = (right.add category placement owner).1 ∧
      (left.add category placement owner).2.Alike (right.add category placement owner).2 := by
  have added := (alike category).add placement owner
  refine ⟨by cases category <;> exact added.1, fun other => ?_⟩
  rw [batch_add, batch_add]
  split
  · next same => exact same ▸ added.2
  · exact alike other

theorem Alike.setLive {left right : Registry α} (alike : left.Alike right) (category : Category)
    (slot : Nat) (placement : Mat4 α) :
    (left.setLive category slot placement).1 = (right.setLive category slot placement).1 ∧
      (left.setLive category slot placement).2.Alike
        (right.setLive category slot placement).2 := by
  have written := (alike category).setLive slot placement
  refine ⟨by cases category <;> exact written.1, fun other => ?_⟩
  rw [batch_setLive, batch_setLive]
  split
  · next same => exact same ▸ written.2
  · exact alike other

theorem Alike.moveOwned {left right : Registry α} (alike : left.Alike right) (owner : TreeId)
    (change : Mat4 α → Mat4 α) :
    (left.moveOwned owner change).1 = (right.moveOwned owner change).1 ∧
      (left.moveOwned owner change).2.Alike (right.moveOwned owner change).2 := by
  have moved category := (alike category).moveOwned owner change
  refine ⟨?_, fun category => ?_⟩
  · change (left.branches.moveOwned owner change).1 + (left.leaves.moveOwned owner change).1 =
      (right.branches.moveOwned owner change).1 + (right.leaves.moveOwned owner change).1
    exact congr (congrArg HAdd.hAdd (moved .branch).1) (moved .leaf).1
  · rw [batch_moveOwned, batch_moveOwned]
    exact (moved category).2

theorem Alike.flush {left right : Registry α} (alike : left.Alike right)
    (renderer other : Renderer α) :
    (left.flush renderer).1 = (right.flush other).1 ∧
      (left.flush renderer).2.1.Alike (right.flush other).2.1 := by
  have branches := (alike .branch).flush renderer other
  have leaves := (alike .leaf).flush (left.flushedBranches renderer) (right.flushedBranches other)
  refine ⟨?_, fun category => ?_⟩
  · change (left.branches.flush renderer).1 + (left.leaves.flush _).1 =
      (right.branches.flush other).1 + (right.leaves.flush _).1
    exact congr (congrArg HAdd.hAdd branches.1) leaves.1
  · cases category with
    | branch => exact branches.2
    | leaf => exact leaves.2

/-- The categories that a registry draws under a handle. -/
def drawnUnder (registry : Registry α) (handle : Handle) (category : Category) : Bool :=
  (registry.batch category).handle == some handle

/-- What becomes of a drawn batch when a registry is flushed that draws some of its categories
there. -/
def redraw (registry : Registry α) (drawnThere : Category → Bool) (drawn : DrawBatch α) :
    DrawBatch α :=
  let drawn := if drawnThere .branch then registry.branches.redraw drawn else drawn
  if drawnThere .leaf then registry.leaves.redraw drawn else drawn

theorem Alike.redraw {left right : Registry α} (alike : left.Alike right) :
    left.redraw = right.redraw := by
  have branches : left.branches.redraw = right.branches.redraw := (alike .branch).redraw
  have leaves : left.leaves.redraw = right.leaves.redraw := (alike .leaf).redraw
  funext drawnThere drawn
  unfold Registry.redraw
  rw [branches, leaves]

theorem batch?_flush (registry : Registry α) (renderer : Renderer α) (handle : Handle) :
    (registry.flush renderer).2.2.batch? handle =
      (renderer.batch? handle).map (registry.redraw (registry.drawnUnder handle)) := by
  change (registry.leaves.flush (registry.branches.flush renderer).2.2).2.2.batch? handle = _
  rw [Batch.batch?_flush, Batch.batch?_flush]
  cases renderer.batch? handle <;>
    by_cases branches : registry.branches.handle = some handle <;>
    by_cases leaves : registry.leaves.handle = some handle <;>
    simp [redraw, drawnUnder, batch, branches, leaves]

/-- Where the renderer's batches of a registry come to lie when it is built. -/
def builtHandle (renderer : Renderer α) : Category → Handle
  | .branch => ⟨renderer.batches.size⟩
  | .leaf => ⟨renderer.batches.size + 1⟩

theorem batch?_builtHandle (renderer : Renderer α) (category : Category) :
    renderer.batch? (builtHandle renderer category) = none := by
  cases category <;> simp [Renderer.batch?, builtHandle]

theorem builtHandle_inj {renderer : Renderer α} {category other : Category} :
    builtHandle renderer category = builtHandle renderer other ↔ category = other := by
  cases category <;> cases other <;> simp [builtHandle]

variable [Scalar α]

theorem handle_build (registry : Registry α) (renderer : Renderer α) (category : Category) :
    ((registry.build renderer).1.batch category).handle =
      some (builtHandle renderer category) := by
  cases category with
  | branch => rfl
  | leaf =>
      change some (Handle.mk (registry.branches.build renderer).2.batches.size) = _
      rw [Batch.size_build]
      rfl

theorem batch?_build (registry : Registry α) (renderer : Renderer α) (handle : Handle) :
    (registry.build renderer).2.batch? handle =
      if handle = builtHandle renderer .leaf then some registry.leaves.drawing
      else if handle = builtHandle renderer .branch then some registry.branches.drawing
      else renderer.batch? handle := by
  change (registry.leaves.build (registry.branches.build renderer).2).2.batch? handle = _
  rw [Batch.batch?_build, Batch.batch?_build, Batch.size_build]
  rfl

theorem batch?_build_builtHandle (registry : Registry α) (renderer : Renderer α)
    (category : Category) :
    (registry.build renderer).2.batch? (builtHandle renderer category) =
      some (registry.batch category).drawing := by
  rw [batch?_build]
  cases category <;> simp [builtHandle, batch]

theorem Alike.build {left right : Registry α} (alike : left.Alike right)
    (renderer other : Renderer α) : (left.build renderer).1.Alike (right.build other).1 := by
  intro category
  cases category with
  | branch => exact (alike .branch).build renderer other
  | leaf => exact (alike .leaf).build _ _

theorem firstHitIn?_congr {left right : Batch α} (alike : left.Alike right)
    {renderer other : Renderer α}
    (drawn : left.handle.bind renderer.batch? = right.handle.bind other.batch?) (ray : Ray α)
    (pickable : TreeId → Bool) :
    firstHitIn? left renderer ray pickable = firstHitIn? right other ray pickable := by
  unfold firstHitIn?
  cases built : left.handle with
  | none =>
      have unbuilt : right.handle = none := by
        simpa [built] using alike.isSome_handle.symm
      rw [unbuilt]
      rfl
  | some handle =>
      obtain ⟨known, found⟩ := alike.exists_handle built
      rw [built, found] at drawn
      have same : renderer.batch? handle = other.batch? known := drawn
      simp only [found, Option.bind_some, Renderer.intersect?, same, alike.owner?,
        alike.category]

end Registry

end Grove
