import Grove.Instance.Category

/-!
# The renderer

The renderer keeps one array of placements for each batch it has been asked to draw, and a flag that
tells whether the array has changed since it was last drawn. Batches are named by handles, instances
by their index. Writes to what does not exist are ignored.
-/

set_option autoImplicit false

namespace Grove

structure Handle where
  index : Nat
  deriving DecidableEq

structure DrawBatch (α : Type) where
  category : Category
  instances : Array (Mat4 α)
  changed : Bool := false

/-- All batches, in the order of their creation. -/
structure Renderer (α : Type) where
  batches : Array (DrawBatch α) := #[]

structure DrawnHit (α : Type) where
  index : Nat
  distance : α

namespace Renderer

variable {α : Type}

def empty : Renderer α := {}

def batch? (renderer : Renderer α) (handle : Handle) : Option (DrawBatch α) :=
  renderer.batches[handle.index]?

def uploaded? (renderer : Renderer α) (handle : Handle) (index : Nat) : Option (Mat4 α) :=
  (renderer.batch? handle).bind (·.instances[index]?)

def modify (renderer : Renderer α) (handle : Handle)
    (change : DrawBatch α → DrawBatch α) : Renderer α :=
  { renderer with batches := renderer.batches.modify handle.index change }

def write (renderer : Renderer α) (handle : Handle) (index : Nat) (placement : Mat4 α) :
    Renderer α :=
  renderer.modify handle fun batch =>
    { batch with instances := batch.instances.setIfInBounds index placement }

def markChanged (renderer : Renderer α) (handle : Handle) : Renderer α :=
  renderer.modify handle fun batch => { batch with changed := true }

def isChanged (renderer : Renderer α) (handle : Handle) : Bool :=
  (renderer.batch? handle).any (·.changed)

def takeChanged (renderer : Renderer α) (handle : Handle) : Bool × Renderer α :=
  (renderer.isChanged handle, renderer.modify handle fun batch => { batch with changed := false })

variable [Scalar α]

/-- Makes a batch of the given size. Instances that are never written hold the zero matrix. -/
def create (renderer : Renderer α) (category : Category) (capacity : Nat) :
    Handle × Renderer α :=
  (⟨renderer.batches.size⟩,
   { renderer with
     batches := renderer.batches.push ⟨category, Array.replicate capacity .zero, false⟩ })

/-- Keeps the nearer of two hits, the first one where neither is nearer. -/
def nearerHit (best : Option (DrawnHit α)) (hit : DrawnHit α) : Option (DrawnHit α) :=
  match best with
  | none => some hit
  | some known => if hit.distance < known.distance then some hit else best

/-- The instance of a batch that a ray meets first, leaving out the skipped ones. -/
def intersect? (renderer : Renderer α) (handle : Handle) (ray : Ray α)
    (skip : Nat → Bool) : Option (DrawnHit α) :=
  (renderer.batch? handle).bind fun batch =>
    batch.instances.zipIdx.foldl (fun best (placement, index) =>
      if skip index then best
      else
        match batch.category.hitPlaced? ray placement with
        | none => best
        | some distance => nearerHit best ⟨index, distance⟩) none

end Renderer

end Grove
