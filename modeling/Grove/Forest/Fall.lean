import Grove.Config.Basic
import Grove.Forest.Tree
import Grove.Instance.Registry

/-!
# Falling trees

The animator knows which trees are falling. In every step it moves each of them on and places its
slots anew: one rotation about the base of the trunk, applied to the placements that the slots were
made with, so that rotations never add up.
-/

set_option autoImplicit false

namespace Grove

variable {α : Type} [Scalar α]

namespace Fall

def defaultDirection : Vec3 α := ⟨0, 0, -1⟩

/-- The horizontal unit vector that points from a reference point to a tree. -/
def direction (position reference : Vec3 α) : Vec3 α :=
  let offset : Vec3 α := ⟨position.x - reference.x, 0, position.z - reference.z⟩
  if offset.lengthSquared < 1e-6 then defaultDirection else offset.normalize

def start (felling : Felling α) (position reference : Vec3 α) : Fall α where
  elapsed := 0
  durationSecs := felling.durationSecs
  finalAngle := felling.finalAngle
  axis := (Vec3.up.cross (Fall.direction position reference)).normalize

/-- The fraction of the fall that a time takes. A fall without duration is over at once. -/
def fraction (fall : Fall α) (time : α) : α :=
  if 0 < fall.durationSecs then time / fall.durationSecs else 1

def advance (fall : Fall α) (time : α) : Fall α :=
  { fall with elapsed := Scalar.clamp (fall.elapsed + fall.fraction time) 0 1 }

/-- Whether the fall is over. -/
def isOver (fall : Fall α) : Bool :=
  decide (1 ≤ fall.elapsed)

def phase (fall : Fall α) : Phase α :=
  if fall.isOver then .felled fall else .falling fall

def rotation (fall : Fall α) (position : Vec3 α) : Mat4 α :=
  Mat4.rotationAbout position fall.axis fall.angle

end Fall

structure Stand (α : Type) where
  trees : Array (Tree α) := #[]
  registry : Registry α := .empty

namespace Stand

def tree? (stand : Stand α) (id : TreeId) : Option (Tree α) :=
  stand.trees[id]?

def setPhase (stand : Stand α) (id : TreeId) (phase : Phase α) : Stand α :=
  { stand with trees := stand.trees.modify id fun tree => { tree with phase } }

/-- Moves one falling tree on and places its slots anew. Tells whether it is still falling. -/
def advanceTree (stand : Stand α) (time : α) (id : TreeId) : Bool × Stand α :=
  match stand.tree? id with
  | none => (false, stand)
  | some tree =>
      match tree.phase with
      | .falling fall =>
          let fall := fall.advance time
          let rotation := fall.rotation tree.position
          let registry := (stand.registry.moveOwned id (rotation * ·)).2
          (!fall.isOver, { stand with registry }.setPhase id fall.phase)
      | _ => (false, stand)

/-- Moves the listed trees on, one after the other. Tells which of them are still falling. -/
def advanceTrees (stand : Stand α) (time : α) : List TreeId → List TreeId × Stand α
  | [] => ([], stand)
  | id :: rest =>
      let (falling, stand) := stand.advanceTree time id
      let (kept, stand) := stand.advanceTrees time rest
      (if falling then id :: kept else kept, stand)

end Stand

/-- The falling trees, in the order in which their falls began. -/
structure Animator (α : Type) where
  felling : Felling α
  active : List TreeId := []

namespace Animator

/-- Begins the fall of a tree away from a reference point. Only a standing tree can fall. -/
def start? (animator : Animator α) (tree : Tree α) (reference : Vec3 α) :
    Option (Animator α × Tree α) :=
  if tree.phase.isStanding then
    some
      ({ animator with active := animator.active ++ [tree.id] },
       { tree with phase := .falling (.start animator.felling tree.position reference) })
  else none

/-- The time that one step takes: not below zero, and not above the limit. -/
def stepTime (animator : Animator α) (time : α) : α :=
  let limited :=
    match animator.felling.maxStep with
    | some limit => Scalar.min time limit
    | none => time
  Scalar.max limited 0

def update (animator : Animator α) (time : α) (stand : Stand α) : Animator α × Stand α :=
  if animator.active.isEmpty then (animator, stand)
  else
    let (active, stand) := stand.advanceTrees (animator.stepTime time) animator.active
    ({ animator with active }, stand)

end Animator

end Grove
