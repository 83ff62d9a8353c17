import Grove.Instance.Registry
import Grove.Proofs.Instance.Batch

/-!
# Registries and their renderer

A registry is built when both of its batches are uploaded, under handles of their own. Moving the
slots of a tree and flushing keep it built, and a flush brings the renderer up to date.
-/

set_option autoImplicit false

namespace Grove.Registry

variable {α : Type}

def slot? (registry : Registry α) (category : Category) (slot : Nat) : Option (Slot α) :=
  (registry.batch category).slot? slot

def uploaded? (registry : Registry α) (renderer : Renderer α) (category : Category) (slot : Nat) :
    Option (Mat4 α) :=
  (registry.batch category).handle.bind (renderer.uploaded? · slot)

/-- The records of both batches agree. -/
def Consistent (registry : Registry α) : Prop :=
  ∀ category, (registry.batch category).Consistent

theorem Consistent.empty : (Registry.empty : Registry α).Consistent := by
  intro category
  cases category <;> exact Batch.Consistent.empty _

/-- A consistent registry whose batches are uploaded under different handles. -/
structure Built (registry : Registry α) (renderer : Renderer α) : Prop where
  consistent : registry.Consistent
  uploaded : ∀ category, ∃ handle, (registry.batch category).handle = some handle ∧
    (registry.batch category).Uploaded renderer handle
  apart : registry.branches.handle ≠ registry.leaves.handle

/-! ## Adding slots -/

theorem batch_add (registry : Registry α) (category : Category) (placement : Mat4 α)
    (owner : TreeId) (other : Category) :
    (registry.add category placement owner).2.batch other =
      if category = other then ((registry.batch other).add placement owner).2
      else registry.batch other := by
  cases category <;> cases other <;> rfl

theorem Consistent.add {registry : Registry α} (consistent : registry.Consistent)
    (category : Category) (placement : Mat4 α) (owner : TreeId) :
    (registry.add category placement owner).2.Consistent := by
  intro other
  rw [batch_add]
  split
  · exact (consistent other).add placement owner
  · exact consistent other

theorem addAll_invariant (invariant : Registry α → Prop) {owner : TreeId} (category : Category)
    (kept : ∀ registry placement, invariant registry →
      invariant (registry.add category placement owner).2)
    (placements : Array (Mat4 α)) {registry : Registry α} (start : invariant registry) :
    invariant (registry.addAll category placements owner) := by
  unfold addAll
  rw [← Array.foldl_toList]
  induction placements.toList generalizing registry with
  | nil => exact start
  | cons placement placements induction => exact induction (kept registry placement start)

/-! ## Moving the slots of an owner -/

theorem batch_moveOwned (registry : Registry α) (owner : TreeId) (change : Mat4 α → Mat4 α)
    (category : Category) :
    (registry.moveOwned owner change).2.batch category =
      ((registry.batch category).moveOwned owner change).2 := by
  cases category <;> rfl

theorem slot?_moveOwned {registry : Registry α} (consistent : registry.Consistent)
    (owner : TreeId) (change : Mat4 α → Mat4 α) (category : Category) (slot : Nat) :
    (registry.moveOwned owner change).2.slot? category slot =
      (registry.slot? category slot).map fun content =>
        if content.owner = owner then (registry.batch category).moved change content
        else content := by
  unfold slot?
  rw [batch_moveOwned, Batch.slot?_moveOwned (consistent category)]

theorem Consistent.moveOwned {registry : Registry α} (consistent : registry.Consistent)
    (owner : TreeId) (change : Mat4 α → Mat4 α) :
    (registry.moveOwned owner change).2.Consistent := by
  intro category
  rw [batch_moveOwned]
  exact (consistent category).moveOwned owner change

theorem handle_moveOwned (registry : Registry α) (owner : TreeId) (change : Mat4 α → Mat4 α)
    (category : Category) :
    ((registry.moveOwned owner change).2.batch category).handle =
      (registry.batch category).handle := by
  rw [batch_moveOwned, Batch.handle_moveOwned]

theorem Built.moveOwned {registry : Registry α} {renderer : Renderer α}
    (built : registry.Built renderer) (owner : TreeId) (change : Mat4 α → Mat4 α) :
    (registry.moveOwned owner change).2.Built renderer where
  consistent := built.consistent.moveOwned owner change
  uploaded category := by
    obtain ⟨handle, known, uploaded⟩ := built.uploaded category
    refine ⟨handle, ?_, ?_⟩
    · rw [handle_moveOwned]
      exact known
    · rw [batch_moveOwned]
      exact uploaded.moveOwned (built.consistent category) known owner change
  apart := by
    have branches := handle_moveOwned registry owner change .branch
    have leaves := handle_moveOwned registry owner change .leaf
    intro same
    exact built.apart (branches.symm.trans (same.trans leaves))

/-! ## Flushing -/

/-- The renderer between the flushes of the two batches. -/
def flushedBranches (registry : Registry α) (renderer : Renderer α) : Renderer α :=
  (registry.branches.flush renderer).2.2

theorem batch_flush (registry : Registry α) (renderer : Renderer α) (category : Category) :
    (registry.flush renderer).2.1.batch category =
      ((registry.batch category).flush
        (match category with
        | .branch => renderer
        | .leaf => registry.flushedBranches renderer)).2.1 := by
  cases category <;> rfl

theorem slot?_flush {registry : Registry α} (consistent : registry.Consistent)
    (renderer : Renderer α) (category : Category) (slot : Nat) :
    (registry.flush renderer).2.1.slot? category slot =
      (registry.slot? category slot).map Batch.settled := by
  unfold slot?
  rw [batch_flush, Batch.slot?_flush (consistent category)]

theorem handle_flush (registry : Registry α) (renderer : Renderer α) (category : Category) :
    ((registry.flush renderer).2.1.batch category).handle =
      (registry.batch category).handle := by
  rw [batch_flush, Batch.handle_flush]

/-- A flush of the branches leaves the leaves alone, and the other way round. -/
theorem Built.uploaded?_flush {registry : Registry α} {renderer : Renderer α}
    (built : registry.Built renderer) {category : Category} {slot : Nat} {content : Slot α}
    (found : registry.slot? category slot = some content) :
    (registry.flush renderer).2.1.uploaded? (registry.flush renderer).2.2 category slot =
      some content.live := by
  obtain ⟨handle, known, uploaded⟩ := built.uploaded category
  obtain ⟨placement, stored, same⟩ := uploaded slot content found
  have branches : registry.branches.Consistent := built.consistent .branch
  have leaves : registry.leaves.Consistent := built.consistent .leaf
  unfold Registry.uploaded?
  rw [handle_flush, known]
  change (registry.leaves.flush (registry.flushedBranches renderer)).2.2.uploaded? handle slot = _
  cases category with
  | branch =>
      have apart : registry.leaves.handle ≠ some handle :=
        fun same => built.apart (known.trans same.symm)
      rw [Batch.uploaded?_flush_of_ne leaves _ apart]
      exact Batch.uploaded?_flush branches known found stored same
  | leaf =>
      have apart : registry.branches.handle ≠ some handle :=
        fun same => built.apart (same.trans known.symm)
      refine Batch.uploaded?_flush leaves known found ?_ same
      exact (Batch.uploaded?_flush_of_ne branches renderer apart slot).trans stored

theorem Built.flush {registry : Registry α} {renderer : Renderer α}
    (built : registry.Built renderer) :
    (registry.flush renderer).2.1.Built (registry.flush renderer).2.2 where
  consistent category := by
    rw [batch_flush]
    exact (built.consistent category).flush _
  uploaded category := by
    obtain ⟨handle, known, -⟩ := built.uploaded category
    refine ⟨handle, (handle_flush registry renderer category).trans known, ?_⟩
    intro slot content found
    have settled := slot?_flush built.consistent renderer category slot
    rw [slot?, found] at settled
    obtain ⟨old, stored, rfl⟩ := Option.map_eq_some_iff.mp settled.symm
    have held := built.uploaded?_flush stored
    unfold Registry.uploaded? at held
    rw [handle_flush, known] at held
    exact ⟨old.live, held, fun _ => rfl⟩
  apart := by
    have branches := handle_flush registry renderer .branch
    have leaves := handle_flush registry renderer .leaf
    intro same
    exact built.apart (branches.symm.trans (same.trans leaves))

/-! ## Building -/

variable [Scalar α]

theorem slot?_build (registry : Registry α) (renderer : Renderer α) (category : Category)
    (slot : Nat) :
    (registry.build renderer).1.slot? category slot =
      (registry.slot? category slot).map Batch.settled := by
  cases category <;> exact Batch.slot?_build _ _ slot

theorem Consistent.build {registry : Registry α} (consistent : registry.Consistent)
    (renderer : Renderer α) :
    (registry.build renderer).1.Built (registry.build renderer).2 where
  consistent category := by
    cases category with
    | branch => exact (consistent .branch).build renderer
    | leaf => exact (consistent .leaf).build _
  uploaded category := by
    cases category with
    | branch =>
        refine ⟨_, Batch.handle_build registry.branches renderer, ?_⟩
        intro slot content found
        obtain ⟨placement, stored, same⟩ :=
          Batch.Uploaded.build registry.branches renderer slot content found
        exact ⟨placement, Batch.uploaded?_build_of_some stored registry.leaves, same⟩
    | leaf =>
        exact ⟨_, Batch.handle_build registry.leaves _, Batch.Uploaded.build registry.leaves _⟩
  apart := by
    intro same
    have indices := congrArg Handle.index (Option.some.inj same)
    have more := Batch.size_build registry.branches renderer
    exact absurd (indices.trans more) (Nat.ne_of_lt (Nat.lt_succ_self _))

end Grove.Registry
