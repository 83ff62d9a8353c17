import Grove.View.Basic

/-!
# The orbit camera

The camera circles a target. Yaw turns it about the vertical, pitch raises it above the horizon, and
the eye is a given distance away from the target.
-/

set_option autoImplicit false

namespace Grove

/-- A camera on an orbit. Angles are in radians. -/
structure Camera (α : Type) where
  target : Vec3 α
  yaw : α
  pitch : α
  distance : α
  /-- The vertical field of view. -/
  fovY : α

namespace Camera

variable {α : Type} [Scalar α]

def standard : Camera α where
  target := ⟨0, 2.0, 0⟩
  yaw := 0.6
  pitch := 0.45
  distance := 60.0
  fovY := Scalar.toRadians 55.0

def minDistance : α := 3.0

def maxDistance : α := 400.0

def minPitch : α := 0.05

def maxPitch : α := 1.5

def nearPlane : α := 0.1

def farPlane : α := 1000.0

def eye (camera : Camera α) : Vec3 α :=
  let level := Scalar.cos camera.pitch
  camera.target +
    Vec3.mk (Scalar.sin camera.yaw * level) (Scalar.sin camera.pitch)
      (Scalar.cos camera.yaw * level) * camera.distance

/-- From the world to clip space, for a viewport of the given ratio of width to height. -/
def projection (camera : Camera α) (aspect : α) : Mat4 α :=
  .perspective camera.fovY (Scalar.max aspect 1e-3) nearPlane farPlane *
    .lookAt camera.eye camera.target .up

def view (camera : Camera α) (size : Vec2 α) : View α :=
  let aspect := if 0 < size.y then size.x / size.y else 1
  ⟨camera.projection aspect, size⟩

/-- Pixels for a unit of the world at unit depth, in a viewport of the given height. -/
def focalLength (camera : Camera α) (height : α) : α :=
  height / (2.0 * Scalar.tan (camera.fovY * 0.5))

/-- Turns the camera by a drag in pixels. -/
def orbit (camera : Camera α) (drag : Vec2 α) : Camera α :=
  { camera with
    yaw := camera.yaw - drag.x * 0.005
    pitch := Scalar.clamp (camera.pitch + drag.y * 0.005) minPitch maxPitch }

/-- Moves the eye by a scroll, closer where the scroll is positive. -/
def zoom (camera : Camera α) (scroll : α) : Camera α :=
  let factor := Scalar.clamp (1 - scroll * 0.001) 0.5 2.0
  { camera with distance := Scalar.clamp (camera.distance * factor) minDistance maxDistance }

end Camera

end Grove
