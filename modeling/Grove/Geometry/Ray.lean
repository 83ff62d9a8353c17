import Grove.Linear.Matrix

/-!
# Rays

Half-lines, and where they meet the unit sphere, the capped unit cylinder and horizontal planes.
-/

set_option autoImplicit false

namespace Grove

/-- The half-line of the points `origin + t * direction` with `0 ≤ t`. -/
structure Ray (α : Type) where
  origin : Vec3 α
  direction : Vec3 α

namespace Ray

variable {α : Type} [Scalar α]

/-- The ray with a direction of length one. There is none for a zero or infinite direction. -/
def towards? (origin direction : Vec3 α) : Option (Ray α) :=
  direction.normalize?.map (⟨origin, ·⟩)

def point (ray : Ray α) (parameter : α) : Vec3 α :=
  ray.origin + ray.direction * parameter

/-- The ray in the coordinates of a placed body. Its direction is not scaled to length one, so
parameters mean the same on both rays. There is no such ray for a singular placement. -/
def toLocal? (ray : Ray α) (placement : Mat4 α) : Option (Ray α) :=
  if placement.determinant == 0 then none
  else
    let inverse := placement.inverse
    if inverse.isFinite then
      some ⟨inverse.transformPoint ray.origin, inverse.transformVector ray.direction⟩
    else none

/-- The parameter at which the ray meets the horizontal plane of a height. -/
def hitPlane? (ray : Ray α) (height : α) : Option α :=
  if Scalar.abs ray.direction.y < 1e-6 then none
  else
    let parameter := (height - ray.origin.y) / ray.direction.y
    if 0 ≤ parameter then some parameter else none

/-- The two parameters at which a line crosses the unit sphere, the smaller first. They are found
from the point of the line that is closest to the centre, which loses little even where origin and
direction are very long. -/
def ballRoots? (origin direction : Vec3 α) : Option (α × α) :=
  let squared := direction.lengthSquared
  if squared ≤ 0 then none
  else
    let closest := -origin.dot direction / squared
    let foot := origin + direction * closest
    let room := 1 - foot.lengthSquared
    if room < 0 then none
    else
      let half := Scalar.sqrt (room / squared)
      some (closest - half, closest + half)

def hitSphere? (ray : Ray α) : Option α :=
  match ballRoots? ray.origin ray.direction with
  | none => none
  | some (first, second) =>
      if 0 ≤ first then some first else if 0 ≤ second then some second else none

/-- Keeps the smallest parameter that is not negative. -/
def nearer (best : Option α) (parameter : α) : Option α :=
  if 0 ≤ parameter then
    match best with
    | none => some parameter
    | some known => if parameter < known then some parameter else best
  else best

/-- The parameters at which the ray crosses the side of the unit cylinder, between the caps. -/
def sideHits (ray : Ray α) : List α :=
  let origin := ray.origin
  let direction := ray.direction
  if 1e-12 < direction.x * direction.x + direction.z * direction.z then
    match ballRoots? origin.horizontal direction.horizontal with
    | none => []
    | some (first, second) =>
        [first, second].filter fun parameter =>
          let height := origin.y + direction.y * parameter
          decide ((-0.5 : α) ≤ height) && decide (height ≤ (0.5 : α))
  else []

def capHits (ray : Ray α) : List α :=
  let origin := ray.origin
  let direction := ray.direction
  if 1e-12 < Scalar.abs direction.y then
    ([-0.5, 0.5] : List α).filterMap fun cap =>
      let parameter := (cap - origin.y) / direction.y
      let point := origin + direction * parameter
      if point.x * point.x + point.z * point.z ≤ 1 then some parameter else none
  else []

def hitCylinder? (ray : Ray α) : Option α :=
  (ray.sideHits ++ ray.capHits).foldl nearer none

end Ray

end Grove
