import Grove.View.Canvas
import Grove.Viewer.Basic

/-!
# Painting

A viewer is painted as a grid on the ground, then the branches and leaves of the forest from the
farthest to the nearest, then the actor. Branches are segments and leaves are discs, and what does
not lie before the eye is left out.
-/

set_option autoImplicit false

namespace Grove

variable {α : Type} [Scalar α]

structure Sight (α : Type) where
  depth : α
  shape : Shape α

namespace Lens

/-- The straight line between two points of the world, if both are seen. -/
def segment? (lens : Lens α) (start stop : Vec3 α) (width : α) (color : Color) :
    Option (Shape α) := do
  let start ← lens.project? start
  let stop ← lens.project? stop
  return .segment start stop width color

/-- A disc about a point of the world, if the point is seen. -/
def disc? (lens : Lens α) (center : Vec3 α) (radius : α) (color : Color) : Option (Shape α) := do
  let center ← lens.project? center
  return .disc center radius color

/-- How a placed branch is seen: as thick as its diameter at the depth of its middle. -/
def branch? (lens : Lens α) (placement : Mat4 α) (color : Color) : Option (Sight α) := do
  let (bottom, top) := Placement.branchEnds placement
  let depth := lens.depth ((bottom + top) * (0.5 : α))
  let radius := placement.xAxis.truncate.length
  let shape ← lens.segment? bottom top (lens.pixels (2.0 * radius) depth) color
  return ⟨depth, shape⟩

def leaf? (lens : Lens α) (placement : Mat4 α) (color : Color) : Option (Sight α) := do
  let center := placement.wAxis.truncate
  let depth := lens.depth center
  let size := placement.xAxis.truncate.length
  let shape ← lens.disc? center (lens.pixels size depth) color
  return ⟨depth, shape⟩

end Lens

namespace Viewer

def gridSquares : Nat := 10

/-- The grid covers at least this far from the centre. -/
def minGridExtent : α := 10.0

/-- The radius of the disc that marks the actor, in pixels. -/
def actorRadius : α := 6.0

/-- The lines of the grid, which covers the square that is planted. For each step along the square
there is a line in depth, then a line across. -/
def gridShapes (viewer : Viewer α) (lens : Lens α) : List (Shape α) :=
  let half := Scalar.max viewer.config.planting.halfExtent minGridExtent
  let height : α := groundHeight
  (List.range (gridSquares + 1)).flatMap fun index =>
    let offset := -half + 2.0 * half * Scalar.ofNat index / Scalar.ofNat gridSquares
    [lens.segment? ⟨offset, height, -half⟩ ⟨offset, height, half⟩ 1 .grid,
     lens.segment? ⟨-half, height, offset⟩ ⟨half, height, offset⟩ 1 .grid].filterMap id

def isFelled (viewer : Viewer α) (owner : TreeId) : Bool :=
  (viewer.population.tree? owner).any (·.phase.isFelled)

/-- The colour of an instance: that of its kind and of the state of its tree. The branches of the
tree that the menu is about stand out. -/
def colorOf (viewer : Viewer α) (category : Category) (owner : TreeId) : Color :=
  match category with
  | .branch =>
      if viewer.menu = some owner then .selection
      else if viewer.isFelled owner then .felledBark
      else .bark
  | .leaf => if viewer.isFelled owner then .felledFoliage else .foliage

/-- How an instance of a tree is seen, if it is. -/
def sight? (viewer : Viewer α) (lens : Lens α) (category : Category) (placement : Mat4 α)
    (owner : TreeId) : Option (Sight α) :=
  let color := viewer.colorOf category owner
  match category with
  | .branch => lens.branch? placement color
  | .leaf => lens.leaf? placement color

/-- The uploaded instances of a batch with their owners, in the order of the slots. -/
def uploadedInstances (viewer : Viewer α) (batch : Batch α) : List (Mat4 α × TreeId) :=
  match batch.handle.bind viewer.renderer.batch? with
  | none => []
  | some drawn => drawn.instances.toList.zip (batch.slots.toList.map (·.owner))

/-- How all instances are seen, branches before leaves and each in the order of the slots. -/
def sights (viewer : Viewer α) (lens : Lens α) : List (Sight α) :=
  viewer.population.registry.batches.flatMap fun batch =>
    (viewer.uploadedInstances batch).filterMap fun (placement, owner) =>
      viewer.sight? lens batch.category placement owner

/-- The shapes of the forest, the farthest first. Those at equal depth keep their order. -/
def forestShapes (viewer : Viewer α) (lens : Lens α) : List (Shape α) :=
  let fartherFirst := fun left right : Sight α => decide (right.depth ≤ left.depth)
  ((viewer.sights lens).mergeSort fartherFirst).map (·.shape)

def actorShape? (viewer : Viewer α) (lens : Lens α) : Option (Shape α) :=
  lens.disc? viewer.actor actorRadius .actor

/-- All shapes on the canvas, in the order in which they are painted. -/
def paint (viewer : Viewer α) (canvas : Canvas α) : List (Shape α) :=
  let lens := Lens.ofCamera viewer.camera canvas
  viewer.gridShapes lens ++ viewer.forestShapes lens ++ (viewer.actorShape? lens).toList

end Viewer

end Grove
