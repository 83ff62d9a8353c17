import Grove.Linear.Matrix

/-!
# Placements

A branch is a cylinder of radius one that spans heights from `-1/2` to `1/2`; a leaf is a sphere of
radius one. Both are centred on the origin, and a matrix places them in the world.
-/

set_option autoImplicit false

namespace Grove.Placement

variable {α : Type} [Scalar α]

/-- Segments shorter than this are drawn with this length, straight up. -/
def shortestSegment : α := 1e-4

/-- The cylinder whose axis runs from `bottom` to `top`. -/
def branch (bottom top : Vec3 α) (radius : α) : Mat4 α :=
  let offset := top - bottom
  let length := offset.length
  let (direction, length) :=
    if length < shortestSegment then (Vec3.up, shortestSegment) else (offset / length, length)
  .place ⟨radius, length, radius⟩ (.rotationArc .up direction) ((bottom + top) * (0.5 : α))

/-- The sphere of radius `size` about a point. -/
def leaf (center : Vec3 α) (size : α) : Mat4 α :=
  .place (.splat size) .identity center

def branchEnds (placement : Mat4 α) : Vec3 α × Vec3 α :=
  (placement.transformPoint ⟨0, -0.5, 0⟩, placement.transformPoint ⟨0, 0.5, 0⟩)

end Grove.Placement
