import Grove.Proofs.Instance.Registry

/-!
# What is shown of a batch

The renderer has as many instances for a batch as the batch had slots when it was built. Slots that
are added later are not shown. Of the others, those that do not wait to be flushed are shown where
they are; a flush shows all of them.
-/

set_option autoImplicit false

namespace Grove

namespace Batch

variable {α : Type}

/-- A batch beside the first `capacity` of its slots, as the renderer shows them. -/
structure Shown (batch : Batch α) (renderer : Renderer α) (handle : Handle) (capacity : Nat) :
    Prop where
  built : batch.handle = some handle
  shape : renderer.shape? handle = some (batch.category, capacity)
  within : capacity ≤ batch.size
  current : ∀ slot content, slot < capacity → batch.slot? slot = some content →
    content.queued = false → renderer.uploaded? handle slot = some content.live

theorem Shown.of_batch_eq {batch : Batch α} {renderer other : Renderer α} {handle : Handle}
    {capacity : Nat} (shown : batch.Shown renderer handle capacity)
    (same : other.batch? handle = renderer.batch? handle) :
    batch.Shown other handle capacity where
  built := shown.built
  shape := by simpa only [Renderer.shape?, same] using shown.shape
  within := shown.within
  current := by simpa only [Renderer.uploaded?, same] using shown.current

theorem Shown.slot?_of_uploaded {batch : Batch α} {renderer : Renderer α} {handle : Handle}
    {capacity slot : Nat} (shown : batch.Shown renderer handle capacity) {placement : Mat4 α}
    (stored : renderer.uploaded? handle slot = some placement) :
    ∃ content, batch.slot? slot = some content := by
  have inside := Renderer.lt_of_uploaded shown.shape stored
  exact ⟨_, Array.getElem?_eq_getElem (Nat.lt_of_lt_of_le inside shown.within)⟩

theorem Shown.live_of_uploaded {batch : Batch α} {renderer : Renderer α} {handle : Handle}
    {capacity slot : Nat} (shown : batch.Shown renderer handle capacity)
    (consistent : batch.Consistent) {placement : Mat4 α}
    (stored : renderer.uploaded? handle slot = some placement) (idle : slot ∉ batch.queue) :
    (batch.slot? slot).map (·.live) = some placement := by
  obtain ⟨content, found⟩ := shown.slot?_of_uploaded stored
  have inside := Renderer.lt_of_uploaded shown.shape stored
  have current := shown.current slot content inside found (consistent.not_queued found idle)
  rw [found, Option.map_some, ← current, stored]

/-! ## Categories -/

@[simp] theorem category_add (batch : Batch α) (placement : Mat4 α) (owner : TreeId) :
    (batch.add placement owner).2.category = batch.category := by
  unfold Batch.add
  dsimp only
  split
  · rfl
  · split <;> rfl

@[simp] theorem category_enqueue (batch : Batch α) (slot : Nat) :
    (batch.enqueue slot).category = batch.category := by
  unfold Batch.enqueue
  dsimp only
  split <;> rfl

@[simp] theorem category_setLive (batch : Batch α) (slot : Nat) (placement : Mat4 α) :
    (batch.setLive slot placement).2.category = batch.category := by
  unfold Batch.setLive
  split
  · exact category_enqueue _ slot
  · rfl

@[simp] theorem category_moveOwned (batch : Batch α) (owner : TreeId)
    (change : Mat4 α → Mat4 α) :
    (batch.moveOwned owner change).2.category = batch.category := by
  change ((batch.slotsOf owner).foldl (moveSlot · change) batch).category = _
  generalize batch.slotsOf owner = slots
  induction slots generalizing batch with
  | nil => rfl
  | cons slot slots induction => exact (induction _).trans (category_enqueue _ slot)

theorem category_flush {batch : Batch α} (consistent : batch.Consistent)
    (renderer : Renderer α) : (batch.flush renderer).2.1.category = batch.category := by
  rcases flush_cases consistent renderer with ⟨-, flushed⟩ | ⟨handle, -, -, flushed⟩
  · rw [flushed]
  · simp only [flushed, foldl_settle_eq]

theorem size_flush {batch : Batch α} (consistent : batch.Consistent) (renderer : Renderer α) :
    (batch.flush renderer).2.1.size = batch.size := by
  rcases flush_cases consistent renderer with ⟨-, flushed⟩ | ⟨handle, -, -, flushed⟩
  · rw [flushed]
  · simp only [flushed, foldl_settle_eq, size]
    exact size_foldl_settle _ _

/-! ## Writing slots -/

theorem Shown.add {batch : Batch α} {renderer : Renderer α} {handle : Handle} {capacity : Nat}
    (shown : batch.Shown renderer handle capacity) (placement : Mat4 α) (owner : TreeId) :
    (batch.add placement owner).2.Shown renderer handle capacity where
  built := by simp [shown.built]
  shape := by simp [shown.shape]
  within := by simp [Nat.le_succ_of_le shown.within]
  current slot content inside found idle := by
    have older : slot ≠ batch.size := Nat.ne_of_lt (Nat.lt_of_lt_of_le inside shown.within)
    rw [slot?_add, if_neg older] at found
    exact shown.current slot content inside found idle

/-- A slot that has been written since the batch was built is queued. -/
theorem queued_flagged {batch : Batch α} {handle : Handle} (built : batch.handle = some handle)
    (content : Slot α) : (batch.flagged content).queued = true := by
  simp [flagged, built]

theorem Shown.setLive {batch : Batch α} {renderer : Renderer α} {handle : Handle}
    {capacity : Nat} (shown : batch.Shown renderer handle capacity) (slot : Nat)
    (placement : Mat4 α) : (batch.setLive slot placement).2.Shown renderer handle capacity where
  built := by simp [shown.built]
  shape := by simp [shown.shape]
  within := by simp [shown.within]
  current other content inside found idle := by
    rw [slot?_setLive] at found
    split at found
    · obtain ⟨old, -, rfl⟩ := Option.map_eq_some_iff.mp found
      simp [queued_flagged shown.built] at idle
    · exact shown.current other content inside found idle

theorem Shown.moveOwned {batch : Batch α} {renderer : Renderer α} {handle : Handle}
    {capacity : Nat} (shown : batch.Shown renderer handle capacity)
    (consistent : batch.Consistent) (owner : TreeId) (change : Mat4 α → Mat4 α) :
    (batch.moveOwned owner change).2.Shown renderer handle capacity where
  built := by simp [shown.built]
  shape := by simp [shown.shape]
  within := by simp [shown.within]
  current slot content inside found idle := by
    rw [slot?_moveOwned consistent] at found
    obtain ⟨old, known, rfl⟩ := Option.map_eq_some_iff.mp found
    by_cases owned : old.owner = owner
    · simp [owned, moved, queued_flagged shown.built] at idle
    · rw [if_neg owned] at idle ⊢
      exact shown.current slot old inside known idle

/-! ## Flushing -/

theorem frame_foldl_upload (batch : Batch α) (handle : Handle) (slots : List Nat)
    (renderer : Renderer α) :
    Renderer.Frame handle renderer (slots.foldl (batch.upload handle) renderer) := by
  induction slots generalizing renderer with
  | nil => exact .refl handle renderer
  | cons slot slots induction =>
      refine .trans ?_ (induction (batch.upload handle renderer slot))
      unfold upload
      split
      · exact .write renderer handle slot _
      · exact .refl handle renderer

/-- A flush touches nothing but the renderer's batch, and notes that it does. -/
theorem noted_flush {batch : Batch α} (consistent : batch.Consistent) (renderer : Renderer α)
    (other : Handle) : renderer.Noted (batch.flush renderer).2.2 other := by
  rcases flush_cases consistent renderer with ⟨-, flushed⟩ | ⟨handle, -, -, flushed⟩
  · simpa only [flushed] using .refl renderer other
  · simpa only [flushed] using (frame_foldl_upload batch handle _ renderer).noted other

theorem frame_flush {batch : Batch α} (consistent : batch.Consistent) {handle : Handle}
    (built : batch.handle = some handle) (renderer : Renderer α) :
    Renderer.Frame handle renderer (batch.flush renderer).2.2 := by
  rcases flush_cases consistent renderer with ⟨-, flushed⟩ | ⟨known, recorded, -, flushed⟩
  · simpa only [flushed] using .refl handle renderer
  · cases built.symm.trans recorded
    simpa only [flushed] using
      (frame_foldl_upload batch handle _ renderer).trans (.markChanged _ handle)

theorem Shown.flush {batch : Batch α} {renderer : Renderer α} {handle : Handle} {capacity : Nat}
    (shown : batch.Shown renderer handle capacity) (consistent : batch.Consistent) :
    (batch.flush renderer).2.1.Shown (batch.flush renderer).2.2 handle capacity where
  built := by simp [shown.built]
  shape := by
    simpa only [category_flush consistent, (frame_flush consistent shown.built renderer).shape]
      using shown.shape
  within := by simpa only [size_flush consistent] using shown.within
  current slot content inside found idle := by
    rw [slot?_flush consistent] at found
    obtain ⟨old, known, rfl⟩ := Option.map_eq_some_iff.mp found
    obtain ⟨placement, stored⟩ := Renderer.exists_uploaded_of_shape shown.shape inside
    have same : old.queued = false → placement = old.live := fun idle =>
      Option.some.inj (stored.symm.trans (shown.current slot old inside known idle))
    change _ = some old.live
    exact uploaded?_flush consistent shown.built known stored same

theorem queue_flush {batch : Batch α} (consistent : batch.Consistent) (renderer : Renderer α) :
    (batch.flush renderer).2.1.queue = #[] := by
  rcases flush_cases consistent renderer with ⟨nothing, flushed⟩ | ⟨handle, -, -, flushed⟩
  · simpa only [flushed] using nothing
  · simp only [flushed, foldl_settle_eq]

/-! ## Building -/

variable [Scalar α]

private theorem frame_build (batch : Batch α) (renderer : Renderer α) :
    Renderer.Frame ⟨renderer.batches.size⟩ (renderer.create batch.category batch.size).2
      (batch.build renderer).2 :=
  (frame_foldl_upload batch _ (List.range batch.size) _).trans (.markChanged _ _)

private theorem shape?_build (batch : Batch α) (renderer : Renderer α) :
    (batch.build renderer).2.shape? ⟨renderer.batches.size⟩ =
      some (batch.category, batch.size) := by
  rw [(frame_build batch renderer).shape]
  simp [Renderer.shape?, Renderer.batch?_create]

theorem batch?_build_of_ne (batch : Batch α) (renderer : Renderer α) {handle : Handle}
    (older : handle ≠ ⟨renderer.batches.size⟩) :
    (batch.build renderer).2.batch? handle = renderer.batch? handle := by
  have apart : handle.index ≠ renderer.batches.size := fun same => older (congrArg Handle.mk same)
  rw [(frame_build batch renderer).others handle older.symm, Renderer.batch?_create, if_neg apart]

theorem isChanged_build (batch : Batch α) (renderer : Renderer α) :
    (batch.build renderer).2.isChanged ⟨renderer.batches.size⟩ = true := by
  have shape := shape?_build batch renderer
  rw [(frame_build batch renderer).shape, ← (frame_foldl_upload batch _ (List.range batch.size)
    _).shape] at shape
  exact Renderer.isChanged_markChanged shape

theorem noted_build (batch : Batch α) (renderer : Renderer α) (handle : Handle) :
    renderer.Noted (batch.build renderer).2 handle := by
  by_cases new : handle = ⟨renderer.batches.size⟩
  · subst new
    exact .inl (isChanged_build batch renderer)
  · exact .inr (batch?_build_of_ne batch renderer new)

theorem Shown.build (batch : Batch α) (renderer : Renderer α) :
    (batch.build renderer).1.Shown (batch.build renderer).2 ⟨renderer.batches.size⟩
      batch.size where
  built := rfl
  shape := shape?_build batch renderer
  within := Nat.le_of_eq (Array.size_map ..).symm
  current slot content _ found idle := by
    obtain ⟨placement, stored, same⟩ := Uploaded.build batch renderer slot content found
    rw [stored, same idle]

end Batch

end Grove
