import Grove.Linear.Quaternion

/-!
# Placement and projection matrices

Four by four matrices in columns, acting on points from the left.
-/

set_option autoImplicit false

namespace Grove

/-- A four by four matrix, given by its columns. -/
structure Mat4 (α : Type) where
  xAxis : Vec4 α
  yAxis : Vec4 α
  zAxis : Vec4 α
  wAxis : Vec4 α

namespace Mat4

variable {α : Type} [Scalar α]

def identity : Mat4 α :=
  ⟨⟨1, 0, 0, 0⟩, ⟨0, 1, 0, 0⟩, ⟨0, 0, 1, 0⟩, ⟨0, 0, 0, 1⟩⟩

def zero : Mat4 α :=
  ⟨.zero, .zero, .zero, .zero⟩

/-- The sixteen entries, column after column. -/
def entries (matrix : Mat4 α) : List α :=
  let column (axis : Vec4 α) : List α := [axis.x, axis.y, axis.z, axis.w]
  column matrix.xAxis ++ column matrix.yAxis ++ column matrix.zAxis ++ column matrix.wAxis

/-- The image of a vector: the columns weighted by its coordinates. -/
def apply (matrix : Mat4 α) (vector : Vec4 α) : Vec4 α :=
  ((matrix.xAxis * vector.x + matrix.yAxis * vector.y) + matrix.zAxis * vector.z) +
    matrix.wAxis * vector.w

/-- The matrix that applies `right` first and `left` after it. -/
instance : Mul (Mat4 α) where
  mul left right :=
    ⟨left.apply right.xAxis, left.apply right.yAxis, left.apply right.zAxis,
      left.apply right.wAxis⟩

/-- The image of a point under a matrix whose last row is `(0, 0, 0, 1)`. -/
def transformPoint (matrix : Mat4 α) (point : Vec3 α) : Vec3 α :=
  (matrix.wAxis + (matrix.zAxis * point.z +
    (matrix.yAxis * point.y + matrix.xAxis * point.x))).truncate

/-- The image of a direction, which is not moved by the shift. -/
def transformVector (matrix : Mat4 α) (direction : Vec3 α) : Vec3 α :=
  (matrix.zAxis * direction.z +
    (matrix.yAxis * direction.y + matrix.xAxis * direction.x)).truncate

def shift (offset : Vec3 α) : Mat4 α :=
  ⟨⟨1, 0, 0, 0⟩, ⟨0, 1, 0, 0⟩, ⟨0, 0, 1, 0⟩, offset.extend 1⟩

def rotation (turn : Quat α) : Mat4 α :=
  let x2 := turn.x + turn.x
  let y2 := turn.y + turn.y
  let z2 := turn.z + turn.z
  let xx := turn.x * x2
  let xy := turn.x * y2
  let xz := turn.x * z2
  let yy := turn.y * y2
  let yz := turn.y * z2
  let zz := turn.z * z2
  let wx := turn.w * x2
  let wy := turn.w * y2
  let wz := turn.w * z2
  ⟨⟨1 - (yy + zz), xy + wz, xz - wy, 0⟩,
   ⟨xy - wz, 1 - (xx + zz), yz + wx, 0⟩,
   ⟨xz + wy, yz - wx, 1 - (xx + yy), 0⟩,
   ⟨0, 0, 0, 1⟩⟩

def rotationAbout (point axis : Vec3 α) (angle : α) : Mat4 α :=
  shift point * rotation (.ofAxisAngle axis angle) * shift (-point)

/-- Scales along the axes, then turns, then moves. -/
def place (scale : Vec3 α) (turn : Quat α) (offset : Vec3 α) : Mat4 α :=
  let turned := rotation turn
  ⟨turned.xAxis * scale.x, turned.yAxis * scale.y, turned.zAxis * scale.z, offset.extend 1⟩

def determinant (matrix : Mat4 α) : α :=
  let x := matrix.xAxis
  let y := matrix.yAxis
  let z := matrix.zAxis
  let w := matrix.wAxis
  let minorA := z.z * w.w - z.w * w.z
  let minorB := z.y * w.w - z.w * w.y
  let minorC := z.y * w.z - z.z * w.y
  let minorD := z.x * w.w - z.w * w.x
  let minorE := z.x * w.z - z.z * w.x
  let minorF := z.x * w.y - z.y * w.x
  x.dot
    ⟨(y.y * minorA - y.z * minorB) + y.w * minorC,
     -((y.x * minorA - y.z * minorD) + y.w * minorE),
     (y.x * minorB - y.y * minorD) + y.w * minorF,
     -((y.x * minorC - y.y * minorE) + y.z * minorF)⟩

/-- The inverse by cofactors: each column of the adjugate times the reciprocal of the
determinant. -/
def inverse (matrix : Mat4 α) : Mat4 α :=
  let x := matrix.xAxis
  let y := matrix.yAxis
  let z := matrix.zAxis
  let w := matrix.wAxis
  -- The minors of two rows, for the columns that stay when one of the first columns is struck out.
  let minors (zi zj wi wj yi yj : α) : Vec4 α :=
    let repeated := zi * wj - wi * zj
    ⟨repeated, repeated, yi * wj - wi * yj, yi * zj - zi * yj⟩
  let f0 := minors z.z z.w w.z w.w y.z y.w
  let f1 := minors z.y z.w w.y w.w y.y y.w
  let f2 := minors z.y z.z w.y w.z y.y y.z
  let f3 := minors z.x z.w w.x w.w y.x y.w
  let f4 := minors z.x z.z w.x w.z y.x y.z
  let f5 := minors z.x z.y w.x w.y y.x y.y
  let v0 : Vec4 α := ⟨y.x, x.x, x.x, x.x⟩
  let v1 : Vec4 α := ⟨y.y, x.y, x.y, x.y⟩
  let v2 : Vec4 α := ⟨y.z, x.z, x.z, x.z⟩
  let v3 : Vec4 α := ⟨y.w, x.w, x.w, x.w⟩
  let evenSigns : Vec4 α := ⟨1, -1, 1, -1⟩
  let oddSigns : Vec4 α := ⟨-1, 1, -1, 1⟩
  let i0 := ((v1 * f0 - v2 * f1) + v3 * f2) * evenSigns
  let i1 := ((v0 * f0 - v2 * f3) + v3 * f4) * oddSigns
  let i2 := ((v0 * f1 - v1 * f3) + v3 * f5) * evenSigns
  let i3 := ((v0 * f2 - v1 * f4) + v2 * f5) * oddSigns
  let factor := 1 / x.dot ⟨i0.x, i1.x, i2.x, i3.x⟩
  ⟨i0 * factor, i1 * factor, i2 * factor, i3 * factor⟩

def isFinite (matrix : Mat4 α) : Bool :=
  matrix.xAxis.isFinite && matrix.yAxis.isFinite && matrix.zAxis.isFinite && matrix.wAxis.isFinite

/-- The perspective projection of a right-handed view with depth from zero to one. -/
def perspective (fovY aspect near far : α) : Mat4 α :=
  let half := 0.5 * fovY
  let height := Scalar.cos half / Scalar.sin half
  let width := height / aspect
  let ratio := far / (near - far)
  ⟨⟨width, 0, 0, 0⟩, ⟨0, height, 0, 0⟩, ⟨0, 0, ratio, -1⟩, ⟨0, 0, ratio * near, 0⟩⟩

/-- The right-handed view from `eye` towards `target`. -/
def lookAt (eye target upward : Vec3 α) : Mat4 α :=
  let forward := (target - eye).normalize
  let side := (forward.cross upward).normalize
  let above := side.cross forward
  ⟨⟨side.x, above.x, -forward.x, 0⟩,
   ⟨side.y, above.y, -forward.y, 0⟩,
   ⟨side.z, above.z, -forward.z, 0⟩,
   ⟨-eye.dot side, -eye.dot above, eye.dot forward, 1⟩⟩

end Mat4

end Grove
