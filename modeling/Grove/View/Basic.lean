import Grove.Geometry.Ray

/-!
# Views

A view projects the world onto a rectangle of pixels and finds the ray through a pixel. Pixels are
counted from the upper left corner.
-/

set_option autoImplicit false

namespace Grove

structure View (α : Type) where
  /-- From the world to clip space, with depth from zero to one. -/
  projection : Mat4 α
  /-- Width and height of the viewport, in pixels. -/
  viewport : Vec2 α

namespace View

variable {α : Type} [Scalar α]

/-- A screen point in normalized device coordinates, from `-1` to `1` and upwards. -/
def toDevice (view : View α) (screen : Vec2 α) : Vec2 α :=
  ⟨2.0 * screen.x / view.viewport.x - 1, 1 - 2.0 * screen.y / view.viewport.y⟩

/-- The screen point of a point of the world, unless it lies behind the eye. -/
def project? (view : View α) (point : Vec3 α) : Option (Vec2 α) :=
  let clip := view.projection.apply (point.extend 1)
  if clip.w ≤ 1e-6 then none
  else
    let device := clip.truncate / clip.w
    some ⟨(device.x + 1) * 0.5 * view.viewport.x, (1 - device.y) * 0.5 * view.viewport.y⟩

/-- The point of the world with given device coordinates, unless it lies at infinity. -/
def unproject? (inverse : Mat4 α) (device : Vec2 α) (depth : α) : Option (Vec3 α) :=
  let point := inverse.apply ⟨device.x, device.y, depth, 1⟩
  if 1e-9 < Scalar.abs point.w then some (point.truncate / point.w) else none

/-- The ray through a screen point, from the near plane on. There is none for an empty viewport or a
singular projection. -/
def ray? (view : View α) (screen : Vec2 α) : Option (Ray α) :=
  if view.viewport.x ≤ 0 then none
  else if view.viewport.y ≤ 0 then none
  else if Scalar.abs view.projection.determinant < Scalar.epsilon then none
  else do
    let inverse := view.projection.inverse
    let device := view.toDevice screen
    let near ← unproject? inverse device 0
    let far ← unproject? inverse device 1
    Ray.towards? near (far - near)

end View

end Grove
