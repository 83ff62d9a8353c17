import Grove.Instance.Batch

/-!
# The registry

The registry holds the batch of branches and the batch of leaves, and finds the slot that a ray
meets first.
-/

set_option autoImplicit false

namespace Grove

structure Registry (α : Type) where
  branches : Batch α := { category := .branch }
  leaves : Batch α := { category := .leaf }

/-- The slot that a ray meets first, and its owner. -/
structure SlotHit (α : Type) where
  category : Category
  slot : Nat
  owner : TreeId
  distance : α

namespace Registry

variable {α : Type}

def empty : Registry α := {}

def batch (registry : Registry α) : Category → Batch α
  | .branch => registry.branches
  | .leaf => registry.leaves

/-- Branches first, then leaves. -/
def batches (registry : Registry α) : List (Batch α) :=
  [registry.branches, registry.leaves]

def slotCount (registry : Registry α) : Nat :=
  registry.branches.size + registry.leaves.size

def isBuilt (registry : Registry α) : Bool :=
  registry.branches.handle.isSome && registry.leaves.handle.isSome

/-- Appends a slot and tells its number. The renderer does not know it until the registry is built
again. -/
def add (registry : Registry α) (category : Category) (placement : Mat4 α) (owner : TreeId) :
    Nat × Registry α :=
  match category with
  | .branch =>
      let (slot, branches) := registry.branches.add placement owner
      (slot, { registry with branches })
  | .leaf =>
      let (slot, leaves) := registry.leaves.add placement owner
      (slot, { registry with leaves })

def addAll (registry : Registry α) (category : Category) (placements : Array (Mat4 α))
    (owner : TreeId) : Registry α :=
  placements.foldl (fun registry placement => (registry.add category placement owner).2) registry

/-- Gives a slot a new placement. Tells whether there is such a slot. -/
def setLive (registry : Registry α) (category : Category) (slot : Nat) (placement : Mat4 α) :
    Bool × Registry α :=
  match category with
  | .branch =>
      let (found, branches) := registry.branches.setLive slot placement
      (found, { registry with branches })
  | .leaf =>
      let (found, leaves) := registry.leaves.setLive slot placement
      (found, { registry with leaves })

/-- Places all slots of an owner anew, starting from the placements they were made with. Tells how
many there are. -/
def moveOwned (registry : Registry α) (owner : TreeId) (change : Mat4 α → Mat4 α) :
    Nat × Registry α :=
  let (branchCount, branches) := registry.branches.moveOwned owner change
  let (leafCount, leaves) := registry.leaves.moveOwned owner change
  (branchCount + leafCount, { branches, leaves })

/-- Writes every slot that has changed since the last flush to the renderer. Tells how many. -/
def flush (registry : Registry α) (renderer : Renderer α) : Nat × Registry α × Renderer α :=
  let (branchCount, branches, renderer) := registry.branches.flush renderer
  let (leafCount, leaves, renderer) := registry.leaves.flush renderer
  (branchCount + leafCount, { branches, leaves }, renderer)

variable [Scalar α]

def build (registry : Registry α) (renderer : Renderer α) : Registry α × Renderer α :=
  let (branches, renderer) := registry.branches.build renderer
  let (leaves, renderer) := registry.leaves.build renderer
  ({ branches, leaves }, renderer)

/-- Keeps the nearer of two hits, the first one where neither is nearer. -/
def nearerHit (best : Option (SlotHit α)) (hit : SlotHit α) : Option (SlotHit α) :=
  match best with
  | none => some hit
  | some known => if hit.distance < known.distance then some hit else best

/-- The slot of one batch that a ray meets first, among those with a pickable owner. -/
def firstHitIn? (batch : Batch α) (renderer : Renderer α) (ray : Ray α)
    (pickable : TreeId → Bool) : Option (SlotHit α) :=
  batch.handle.bind fun handle =>
    let skip := fun slot => !(batch.owner? slot).any pickable
    (renderer.intersect? handle ray skip).bind fun hit =>
      (batch.owner? hit.index).map fun owner =>
        ⟨batch.category, hit.index, owner, hit.distance⟩

/-- The slot that a ray meets first, among the built batches' slots with a pickable owner. At equal
distance a branch comes before a leaf. -/
def firstHit? (registry : Registry α) (renderer : Renderer α) (ray : Ray α)
    (pickable : TreeId → Bool) : Option (SlotHit α) :=
  registry.batches.foldl (fun best batch =>
    match firstHitIn? batch renderer ray pickable with
    | none => best
    | some hit => nearerHit best hit) none

end Registry

end Grove
