import Grove.Instance.Renderer

/-!
# What the renderer holds

An uploaded placement is the one written last for its batch and its index. Flags never touch
placements, and no write reaches another batch.
-/

set_option autoImplicit false

namespace Grove.Renderer

variable {α : Type}

theorem batch?_modify (renderer : Renderer α) (handle other : Handle)
    (change : DrawBatch α → DrawBatch α) :
    (renderer.modify handle change).batch? other =
      if handle = other then (renderer.batch? other).map change else renderer.batch? other := by
  obtain ⟨index⟩ := handle
  obtain ⟨otherIndex⟩ := other
  simp only [batch?, modify, Array.getElem?_modify, Handle.mk.injEq]

theorem uploaded?_write (renderer : Renderer α) (handle other : Handle) (index slot : Nat)
    (placement : Mat4 α) :
    (renderer.write handle index placement).uploaded? other slot =
      if handle = other ∧ index = slot then
        (renderer.uploaded? other slot).map fun _ => placement
      else renderer.uploaded? other slot := by
  unfold uploaded? write
  rw [batch?_modify]
  by_cases sameBatch : handle = other
  · rw [if_pos sameBatch]
    cases renderer.batch? other with
    | none => simp
    | some batch =>
        by_cases sameSlot : index = slot
        · subst sameSlot
          simp only [Option.map_some, Option.bind_some, Array.getElem?_setIfInBounds, sameBatch,
            and_self, if_true]
          split
          · rename_i inside
            rw [Array.getElem?_eq_getElem inside]
            rfl
          · rename_i outside
            rw [Array.getElem?_eq_none (Nat.le_of_not_lt outside)]
            rfl
        · simp [Array.getElem?_setIfInBounds_ne, sameSlot]
  · rw [if_neg sameBatch, if_neg fun same => sameBatch same.1]

theorem uploaded?_modify_flag (renderer : Renderer α) (handle other : Handle) (slot : Nat)
    (flag : Bool) :
    (renderer.modify handle fun batch => { batch with changed := flag }).uploaded? other slot =
      renderer.uploaded? other slot := by
  unfold uploaded?
  rw [batch?_modify]
  split
  · cases renderer.batch? other <;> rfl
  · rfl

theorem uploaded?_markChanged (renderer : Renderer α) (handle other : Handle) (slot : Nat) :
    (renderer.markChanged handle).uploaded? other slot = renderer.uploaded? other slot :=
  uploaded?_modify_flag renderer handle other slot true

/-! ## What is left alone -/

/-- The kind of a batch and the number of its instances. -/
def shape? (renderer : Renderer α) (handle : Handle) : Option (Category × Nat) :=
  (renderer.batch? handle).map fun drawn => (drawn.category, drawn.instances.size)

theorem exists_uploaded_of_shape {renderer : Renderer α} {handle : Handle} {category : Category}
    {capacity slot : Nat} (shape : renderer.shape? handle = some (category, capacity))
    (inside : slot < capacity) : ∃ placement, renderer.uploaded? handle slot = some placement := by
  obtain ⟨drawn, found, same⟩ := Option.map_eq_some_iff.mp shape
  cases same
  exact ⟨drawn.instances[slot], by simp [uploaded?, found, inside]⟩

theorem lt_of_uploaded {renderer : Renderer α} {handle : Handle} {category : Category}
    {capacity slot : Nat} {placement : Mat4 α}
    (shape : renderer.shape? handle = some (category, capacity))
    (stored : renderer.uploaded? handle slot = some placement) : slot < capacity := by
  obtain ⟨drawn, found, same⟩ := Option.map_eq_some_iff.mp shape
  cases same
  rw [uploaded?, found] at stored
  exact (Array.getElem?_eq_some_iff.mp stored).1

/-- Two renderers differ at most in one batch, and there neither in its kind nor in its size. -/
structure Frame (handle : Handle) (before after : Renderer α) : Prop where
  shape : ∀ other, after.shape? other = before.shape? other
  others : ∀ other, handle ≠ other → after.batch? other = before.batch? other

theorem Frame.refl (handle : Handle) (renderer : Renderer α) : Frame handle renderer renderer :=
  ⟨fun _ => rfl, fun _ _ => rfl⟩

theorem Frame.trans {handle : Handle} {first second third : Renderer α}
    (before : Frame handle first second) (after : Frame handle second third) :
    Frame handle first third :=
  ⟨fun other => (after.shape other).trans (before.shape other),
    fun other apart => (after.others other apart).trans (before.others other apart)⟩

theorem Frame.modify (renderer : Renderer α) (handle : Handle)
    {change : DrawBatch α → DrawBatch α}
    (category : ∀ drawn, (change drawn).category = drawn.category)
    (size : ∀ drawn, (change drawn).instances.size = drawn.instances.size) :
    Frame handle renderer (renderer.modify handle change) := by
  refine ⟨fun other => ?_, fun other apart => ?_⟩
  · unfold shape?
    rw [batch?_modify]
    split
    · cases renderer.batch? other <;> simp [category, size]
    · rfl
  · rw [batch?_modify, if_neg apart]

theorem Frame.write (renderer : Renderer α) (handle : Handle) (index : Nat)
    (placement : Mat4 α) : Frame handle renderer (renderer.write handle index placement) :=
  .modify renderer handle (fun _ => rfl) fun _ => Array.size_setIfInBounds ..

theorem Frame.markChanged (renderer : Renderer α) (handle : Handle) :
    Frame handle renderer (renderer.markChanged handle) :=
  .modify renderer handle (fun _ => rfl) fun _ => rfl

theorem Frame.takeChanged (renderer : Renderer α) (handle : Handle) :
    Frame handle renderer (renderer.takeChanged handle).2 :=
  .modify renderer handle (fun _ => rfl) fun _ => rfl

/-! ## Flags -/

theorem isChanged_markChanged {renderer : Renderer α} {handle : Handle} {shape : Category × Nat}
    (known : renderer.shape? handle = some shape) :
    (renderer.markChanged handle).isChanged handle = true := by
  obtain ⟨drawn, found, -⟩ := Option.map_eq_some_iff.mp known
  simp [isChanged, Renderer.markChanged, batch?_modify, found]

/-- A batch is flagged as changed, or it is as it was. -/
def Noted (before after : Renderer α) (handle : Handle) : Prop :=
  after.isChanged handle = true ∨ after.batch? handle = before.batch? handle

theorem Noted.refl (renderer : Renderer α) (handle : Handle) : Noted renderer renderer handle :=
  .inr rfl

theorem Noted.trans {first second third : Renderer α} {handle : Handle}
    (before : Noted first second handle) (after : Noted second third handle) :
    Noted first third handle := by
  rcases after with changed | kept
  · exact .inl changed
  · rcases before with changed | same
    · left
      unfold isChanged at changed ⊢
      rwa [kept]
    · exact .inr (kept.trans same)

/-- Whatever is written to a batch is noted when the batch is flagged afterwards. -/
theorem Frame.noted {handle : Handle} {before after : Renderer α}
    (frame : Frame handle before after) (other : Handle) :
    Noted before (after.markChanged handle) other := by
  by_cases same : handle = other
  · subst same
    cases known : after.shape? handle with
    | some shape => exact .inl (isChanged_markChanged known)
    | none =>
        right
        have unknown := (frame.shape handle).symm.trans known
        rw [shape?, Option.map_eq_none_iff] at known unknown
        simp [Renderer.markChanged, batch?_modify, known, unknown]
  · right
    exact (frame.trans (.markChanged after handle)).others other same

variable [Scalar α]

theorem batch?_create (renderer : Renderer α) (category : Category) (capacity : Nat)
    (handle : Handle) :
    (renderer.create category capacity).2.batch? handle =
      if handle.index = renderer.batches.size then
        some ⟨category, Array.replicate capacity .zero, false⟩
      else renderer.batch? handle :=
  Array.getElem?_push

theorem uploaded?_create_self (renderer : Renderer α) (category : Category) (capacity slot : Nat)
    (inside : slot < capacity) :
    (renderer.create category capacity).2.uploaded? (renderer.create category capacity).1 slot =
      some .zero := by
  simp [create, uploaded?, batch?, inside]

theorem uploaded?_create_of_some {renderer : Renderer α} {handle : Handle} {slot : Nat}
    {placement : Mat4 α} (known : renderer.uploaded? handle slot = some placement)
    (category : Category) (capacity : Nat) :
    (renderer.create category capacity).2.uploaded? handle slot = some placement := by
  obtain ⟨batch, found, -⟩ := Option.bind_eq_some_iff.mp known
  have older : handle.index ≠ renderer.batches.size :=
    Nat.ne_of_lt (Array.getElem?_eq_some_iff.mp found).1
  rwa [uploaded?, batch?_create, if_neg older]

end Grove.Renderer
