import Grove.Linear.Vector

/-!
# Rotations as quaternions

A rotation about a unit axis `a` by an angle `t` is the quaternion `(sin (t/2) a, cos (t/2))`.
-/

set_option autoImplicit false

namespace Grove

/-- A quaternion; `w` is its scalar part. -/
structure Quat (α : Type) where
  x : α
  y : α
  z : α
  w : α

namespace Quat

variable {α : Type} [Scalar α]

def identity : Quat α := ⟨0, 0, 0, 1⟩

def vector (rotation : Quat α) : Vec3 α :=
  ⟨rotation.x, rotation.y, rotation.z⟩

/-- The rotation by `angle` about a unit axis. -/
def ofAxisAngle (axis : Vec3 α) (angle : α) : Quat α :=
  let half := angle * 0.5
  let part := axis * Scalar.sin half
  ⟨part.x, part.y, part.z, Scalar.cos half⟩

/-- The rotation by `angle` about the vertical axis. -/
def rotationY (angle : α) : Quat α :=
  let half := angle * 0.5
  ⟨0, Scalar.sin half, 0, Scalar.cos half⟩

/-- The rotation by `angle` about the third axis. -/
def rotationZ (angle : α) : Quat α :=
  let half := angle * 0.5
  ⟨0, 0, Scalar.sin half, Scalar.cos half⟩

/-- The rotation that applies `right` first and `left` after it. -/
instance : Mul (Quat α) where
  mul left right :=
    ⟨(left.w * right.x + left.x * right.w) + (left.y * right.z - left.z * right.y),
     (left.w * right.y - left.x * right.z) + (left.y * right.w + left.z * right.x),
     (left.w * right.z + left.x * right.y) + (left.z * right.w - left.y * right.x),
     (left.w * right.w - left.x * right.x) + (-(left.y * right.y) - left.z * right.z)⟩

/-- The sum of the squares of the four parts, taken in two pairs. -/
def lengthSquared (rotation : Quat α) : α :=
  (rotation.x * rotation.x + rotation.z * rotation.z) +
    (rotation.y * rotation.y + rotation.w * rotation.w)

def normalize (rotation : Quat α) : Quat α :=
  let length := Scalar.sqrt rotation.lengthSquared
  ⟨rotation.x / length, rotation.y / length, rotation.z / length, rotation.w / length⟩

/-- The image of a vector under a unit quaternion. -/
def rotate (rotation : Quat α) (target : Vec3 α) : Vec3 α :=
  let axis := rotation.vector
  let kept := rotation.w * rotation.w - axis.dot axis
  (target * kept + axis * (target.dot axis * 2.0)) +
    axis.cross target * (rotation.w * 2.0)

def anyOrthonormal (direction : Vec3 α) : Vec3 α :=
  let sign : α := if direction.z < 0 then -1 else 1
  let factor := -1 / (sign + direction.z)
  let mixed := direction.x * direction.y * factor
  ⟨mixed, sign + direction.y * direction.y * factor, -direction.y⟩

/-- The shortest rotation that turns one unit vector into another. Directions closer than the
rounding of single precision are not turned at all, and opposite ones by half a turn about any axis
across them. -/
def rotationArc (source target : Vec3 α) : Quat α :=
  let closeness : α := 1 - 2.0 * Scalar.epsilon
  let cosine := source.dot target
  if closeness < cosine then identity
  else if cosine < -closeness then ofAxisAngle (anyOrthonormal source) Scalar.pi
  else
    let axis := source.cross target
    (Quat.mk axis.x axis.y axis.z (1 + cosine)).normalize

end Quat

end Grove
