import Grove.Scalar

/-!
# Vectors

Vectors of two, three and four scalars. Sums of products are taken from left to right, which
matters to the last bit in single precision.
-/

set_option autoImplicit false

namespace Grove

structure Vec2 (α : Type) where
  x : α
  y : α

/-- A point or a direction in space; `y` points up. -/
structure Vec3 (α : Type) where
  x : α
  y : α
  z : α

/-- A point in homogeneous coordinates, or a column of a matrix. -/
structure Vec4 (α : Type) where
  x : α
  y : α
  z : α
  w : α

variable {α : Type} [Scalar α]

namespace Vec3

instance : Add (Vec3 α) where
  add left right := ⟨left.x + right.x, left.y + right.y, left.z + right.z⟩

instance : Sub (Vec3 α) where
  sub left right := ⟨left.x - right.x, left.y - right.y, left.z - right.z⟩

instance : Neg (Vec3 α) where
  neg vector := ⟨-vector.x, -vector.y, -vector.z⟩

instance : HMul (Vec3 α) α (Vec3 α) where
  hMul vector factor := ⟨vector.x * factor, vector.y * factor, vector.z * factor⟩

/-- A vector divided by a scalar, component by component. -/
instance : HDiv (Vec3 α) α (Vec3 α) where
  hDiv vector divisor := ⟨vector.x / divisor, vector.y / divisor, vector.z / divisor⟩

def zero : Vec3 α := ⟨0, 0, 0⟩

def up : Vec3 α := ⟨0, 1, 0⟩

def splat (value : α) : Vec3 α := ⟨value, value, value⟩

def dot (left right : Vec3 α) : α :=
  (left.x * right.x + left.y * right.y) + left.z * right.z

def cross (left right : Vec3 α) : Vec3 α :=
  ⟨left.y * right.z - right.y * left.z,
   left.z * right.x - right.z * left.x,
   left.x * right.y - right.x * left.y⟩

def lengthSquared (vector : Vec3 α) : α :=
  vector.dot vector

def length (vector : Vec3 α) : α :=
  Scalar.sqrt vector.lengthSquared

def distance (left right : Vec3 α) : α :=
  (left - right).length

def normalize (vector : Vec3 α) : Vec3 α :=
  vector * (1 / vector.length)

/-- The vector scaled to length one, if the factor for that is a positive number. -/
def normalize? (vector : Vec3 α) : Option (Vec3 α) :=
  let factor := 1 / vector.length
  if Scalar.isFinite factor && decide (0 < factor) then some (vector * factor) else none

/-- The vector without its vertical part. -/
def horizontal (vector : Vec3 α) : Vec3 α :=
  ⟨vector.x * 1, vector.y * 0, vector.z * 1⟩

def extend (vector : Vec3 α) (w : α) : Vec4 α :=
  ⟨vector.x, vector.y, vector.z, w⟩

def isFinite (vector : Vec3 α) : Bool :=
  Scalar.isFinite vector.x && Scalar.isFinite vector.y && Scalar.isFinite vector.z

end Vec3

namespace Vec4

instance : Add (Vec4 α) where
  add left right := ⟨left.x + right.x, left.y + right.y, left.z + right.z, left.w + right.w⟩

instance : Sub (Vec4 α) where
  sub left right := ⟨left.x - right.x, left.y - right.y, left.z - right.z, left.w - right.w⟩

/-- The product of two vectors, component by component. -/
instance : Mul (Vec4 α) where
  mul left right := ⟨left.x * right.x, left.y * right.y, left.z * right.z, left.w * right.w⟩

instance : HMul (Vec4 α) α (Vec4 α) where
  hMul vector factor :=
    ⟨vector.x * factor, vector.y * factor, vector.z * factor, vector.w * factor⟩

def zero : Vec4 α := ⟨0, 0, 0, 0⟩

/-- The sum of products, taken in two pairs: first with third, second with fourth. -/
def dot (left right : Vec4 α) : α :=
  (left.x * right.x + left.z * right.z) + (left.y * right.y + left.w * right.w)

def truncate (vector : Vec4 α) : Vec3 α :=
  ⟨vector.x, vector.y, vector.z⟩

def isFinite (vector : Vec4 α) : Bool :=
  Scalar.isFinite vector.x && Scalar.isFinite vector.y &&
    Scalar.isFinite vector.z && Scalar.isFinite vector.w

end Vec4

end Grove
