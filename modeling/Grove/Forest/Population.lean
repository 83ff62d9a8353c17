import Grove.Forest.Fall
import Grove.Geometry.Ground
import Grove.Grammar.Expansion
import Grove.View.Basic

/-!
# Planted forests

A population is a stand of trees and the animator that fells them. It is grown once; after that
trees are picked, begin to fall, and are moved on step by step.
-/

set_option autoImplicit false

namespace Grove

structure Population (α : Type) where
  stand : Stand α
  animator : Animator α

variable {α σ : Type} [Scalar α] [Generator σ]

namespace Stand

/-- Grows one more tree. Its slots come after those of the trees before it, branches and leaves each
in the order in which they are drawn. -/
def plant (species : Species α) (stand : Stand α) (position : Vec3 α) :
    Sampling σ (Stand α) := do
  let id := stand.trees.size
  let word ← .lift (species.rules.expand species.startWord species.iterations)
  let drawing ← Turtle.drawWord species.drawingParams position word
  let registry := stand.registry.addAll .branch drawing.branches id
  let registry := registry.addAll .leaf drawing.leaves id
  let trunkRadius := species.initialRadius
  return { trees := stand.trees.push { id, position, trunkRadius }, registry }

end Stand

namespace Population

/-- Grows one tree at each of the positions, in order, and uploads their slots. -/
def plantAt (positions : List (Vec3 α)) (species : Species α) (felling : Felling α)
    (renderer : Renderer α) : Sampling σ (Population α × Renderer α) := do
  let stand ← positions.foldlM (Stand.plant species) {}
  let (registry, renderer) := stand.registry.build renderer
  return (⟨{ stand with registry }, { felling }⟩, renderer)

/-- A random place on the ground, at most `halfExtent` from the centre along each axis. -/
def drawPosition (halfExtent : α) (ground : Ground α) : Sampling σ (Vec3 α) := do
  let x ← drawRange (-halfExtent) halfExtent
  let z ← drawRange (-halfExtent) halfExtent
  return ⟨x, ground.height x z, z⟩

/-- Draws the places of all trees, then grows them. -/
def grow (config : Configuration α) (ground : Ground α) (renderer : Renderer α) :
    Sampling σ (Population α × Renderer α) := do
  let halfExtent := Scalar.max config.planting.halfExtent 0
  let positions ←
    (List.replicate config.planting.count ()).mapM fun _ => drawPosition halfExtent ground
  plantAt positions config.species config.felling renderer

omit [Scalar α] in
def trees (population : Population α) : Array (Tree α) :=
  population.stand.trees

omit [Scalar α] in
def registry (population : Population α) : Registry α :=
  population.stand.registry

def tree? (population : Population α) (id : TreeId) : Option (Tree α) :=
  population.stand.tree? id

omit [Scalar α] in
def countFalling (population : Population α) : Nat :=
  population.animator.active.length

def countFelled (population : Population α) : Nat :=
  population.trees.countP (·.phase.isFelled)

/-- Whether a tree can be picked. -/
def pickable (population : Population α) (id : TreeId) : Bool :=
  (population.tree? id).any (·.pickable)

/-- The tree seen first at a screen point, looking through felled ones. -/
def pick? (population : Population α) (renderer : Renderer α) (view : View α)
    (screen : Vec2 α) : Option TreeId := do
  let ray ← view.ray? screen
  let hit ← population.registry.firstHit? renderer ray population.pickable
  return hit.owner

/-- Begins the fall of a tree away from a reference point. Tells whether it began; only a standing
tree can fall. -/
def fell (population : Population α) (id : TreeId) (reference : Vec3 α) :
    Bool × Population α :=
  match population.tree? id with
  | none => (false, population)
  | some tree =>
      match population.animator.start? tree reference with
      | none => (false, population)
      | some (animator, tree) =>
          (true, ⟨population.stand.setPhase id tree.phase, animator⟩)

def update (population : Population α) (time : α) (renderer : Renderer α) :
    Population α × Renderer α :=
  let (animator, stand) := population.animator.update time population.stand
  let (_, registry, renderer) := stand.registry.flush renderer
  (⟨{ stand with registry }, animator⟩, renderer)

end Population

end Grove
