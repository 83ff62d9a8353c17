import Grove.Instance.Category

/-!
# Trees

A tree stands, falls, or lies felled. A fall is a rotation about a horizontal axis through the base
of the trunk, from upright to a final tilt, which it nears ever more slowly.
-/

set_option autoImplicit false

namespace Grove

variable {α : Type} [Scalar α]

structure Fall (α : Type) where
  /-- The fraction of the fall that is over, from zero to one. -/
  elapsed : α
  durationSecs : α
  /-- The final tilt in radians. -/
  finalAngle : α
  /-- The horizontal unit axis of the rotation. -/
  axis : Vec3 α

/-- The course of a fall from zero to one: fast at first, slower towards the end. -/
def Fall.course (fraction : α) : α :=
  let left := 1 - Scalar.clamp fraction 0 1
  1 - left * left * left

/-- The present tilt in radians. -/
def Fall.angle (fall : Fall α) : α :=
  Fall.course fall.elapsed * fall.finalAngle

inductive Phase (α : Type) where
  | standing
  | falling (fall : Fall α)
  /-- The fall is over, and its state does not change any more. -/
  | felled (fall : Fall α)

namespace Phase

def isStanding : Phase α → Bool
  | .standing => true
  | _ => false

def isFalling : Phase α → Bool
  | .falling _ => true
  | _ => false

def isFelled : Phase α → Bool
  | .felled _ => true
  | _ => false

def fall? : Phase α → Option (Fall α)
  | .standing => none
  | .falling fall => some fall
  | .felled fall => some fall

end Phase

structure Tree (α : Type) where
  id : TreeId
  /-- The base of the trunk. -/
  position : Vec3 α
  trunkRadius : α
  phase : Phase α := .standing

namespace Tree

/-- Felled trees cannot be picked. -/
def pickable (tree : Tree α) : Bool :=
  !tree.phase.isFelled

/-- The present tilt in radians; zero while the tree stands. -/
def tilt (tree : Tree α) : α :=
  match tree.phase.fall? with
  | some fall => fall.angle
  | none => 0

end Tree

end Grove
