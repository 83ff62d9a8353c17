import Grove.View.Camera

/-!
# The canvas

The canvas is the part of the window in which the forest is shown, below the bar at the top. What is
drawn on it is a list of shapes, in the order in which they are painted; their coordinates are those
of the window.
-/

set_option autoImplicit false

namespace Grove

structure Canvas (α : Type) where
  /-- The upper left corner, in the window. -/
  origin : Vec2 α
  size : Vec2 α

inductive Color where
  | grid
  | bark
  | felledBark
  | foliage
  | felledFoliage
  | selection
  | actor
  deriving DecidableEq

namespace Color

def all : List Color :=
  [.grid, .bark, .felledBark, .foliage, .felledFoliage, .selection, .actor]

/-- The shares of red, green and blue, in hexadecimal digits. -/
def hex : Color → String
  | .grid => "#3c3c3c"
  | .bark => "#8b5a2b"
  | .felledBark => "#5e4b3a"
  | .foliage => "#2e8b57"
  | .felledFoliage => "#6b703c"
  | .selection => "#f0d060"
  | .actor => "#7fb0ff"

end Color

inductive Shape (α : Type) where
  | segment (start stop : Vec2 α) (width : α) (color : Color)
  | disc (center : Vec2 α) (radius : α) (color : Color)

def Shape.color {α : Type} : Shape α → Color
  | .segment _ _ _ color => color
  | .disc _ _ color => color

variable {α : Type} [Scalar α]

namespace Canvas

/-- The height of the bar above the canvas. -/
def topBarHeight : α := 22.0

/-- The canvas of a given size, at the left and below the bar. -/
def ofSize (size : Vec2 α) : Canvas α :=
  ⟨⟨0, topBarHeight⟩, size⟩

/-- Whether a point of the window lies on the canvas; its edges belong to it. -/
def contains (canvas : Canvas α) (point : Vec2 α) : Bool :=
  decide (canvas.origin.x ≤ point.x) && decide (point.x ≤ canvas.origin.x + canvas.size.x) &&
    decide (canvas.origin.y ≤ point.y) && decide (point.y ≤ canvas.origin.y + canvas.size.y)

/-- A point of the window, seen from the corner of the canvas. -/
def toLocal (canvas : Canvas α) (point : Vec2 α) : Vec2 α :=
  ⟨point.x - canvas.origin.x, point.y - canvas.origin.y⟩

/-- The point of the window that lies this far from the corner of the canvas. -/
def toWindow (canvas : Canvas α) (offset : Vec2 α) : Vec2 α :=
  ⟨canvas.origin.x + offset.x, canvas.origin.y + offset.y⟩

end Canvas

/-- A camera in front of a canvas, with all that painting takes from the two. -/
structure Lens (α : Type) where
  canvas : Canvas α
  view : View α
  eye : Vec3 α
  /-- Pixels for a unit of the world at unit depth. -/
  focalLength : α

namespace Lens

def ofCamera (camera : Camera α) (canvas : Canvas α) : Lens α where
  canvas := canvas
  view := camera.view canvas.size
  eye := camera.eye
  focalLength := camera.focalLength canvas.size.y

/-- Where in the window a point of the world is seen, unless it lies behind the eye. -/
def project? (lens : Lens α) (point : Vec3 α) : Option (Vec2 α) :=
  (lens.view.project? point).map lens.canvas.toWindow

/-- How far a point of the world is from the eye; nothing is closer than a thousandth. -/
def depth (lens : Lens α) (point : Vec3 α) : α :=
  Scalar.max (point.distance lens.eye) 1e-3

/-- The pixels that a length takes at a depth; nothing is thinner than a pixel. -/
def pixels (lens : Lens α) (length depth : α) : α :=
  Scalar.max (length * lens.focalLength / depth) 1

end Lens

end Grove
