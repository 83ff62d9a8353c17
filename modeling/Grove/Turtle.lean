import Grove.Geometry.Placement
import Grove.Grammar.Rules
import Grove.Random.Sample

/-!
# The turtle

A turtle walks a word from left to right. It starts at the base of the tree and looks up, and every
segment it draws and every leaf it places becomes a placement.

* `F` draws a segment forward, with a leaf at its end if that lies far enough from the base;
* `f` moves forward;
* `+` and `-` twist about the heading by a random angle and then turn by a fixed one;
* `[` and `]` save and restore the cursor;
* `R` thins the branch;
* `L` places a leaf.

Other symbols, and `]` without an open `[`, do nothing.
-/

set_option autoImplicit false

namespace Grove.Turtle

variable {α : Type} [Scalar α]

structure Params (α : Type) where
  /-- The turn of `+` and `-`, in radians. -/
  angleStep : α
  segmentLength : α
  initialRadius : α
  /-- The factor that `R` thins by. -/
  radiusDecay : α
  minRadius : α
  /-- A segment that ends farther than this from the base ends in a leaf. -/
  leafDistance : α
  /-- One end of the range of leaf sizes; the ends may come in either order. -/
  leafSizeMin : α
  leafSizeMax : α

/-- Where the turtle is, where it looks, and how thick it draws. -/
structure Cursor (α : Type) where
  position : Vec3 α
  orientation : Quat α
  radius : α

namespace Cursor

def start (position : Vec3 α) (radius : α) : Cursor α :=
  ⟨position, .identity, radius⟩

def heading (cursor : Cursor α) : Vec3 α :=
  cursor.orientation.rotate .up

def advance (cursor : Cursor α) (distance : α) : Cursor α :=
  { cursor with position := cursor.position + cursor.heading * distance }

/-- Twists about the heading, then turns about the third axis of the cursor. -/
def turn (cursor : Cursor α) (twist angle : α) : Cursor α :=
  { cursor with
    orientation := ((cursor.orientation * .rotationY twist) * .rotationZ angle).normalize }

/-- Thins the branch, but not below the least radius. -/
def thin (cursor : Cursor α) (params : Params α) : Cursor α :=
  { cursor with radius := Scalar.max (cursor.radius * params.radiusDecay) params.minRadius }

end Cursor

/-- What has been drawn so far, and the cursors that are in use. -/
structure Drawing (α : Type) where
  cursor : Cursor α
  saved : List (Cursor α) := []
  branches : Array (Mat4 α) := #[]
  leaves : Array (Mat4 α) := #[]

namespace Drawing

def addBranch (drawing : Drawing α) (placement : Mat4 α) : Drawing α :=
  { drawing with branches := drawing.branches.push placement }

def addLeaf (drawing : Drawing α) (placement : Mat4 α) : Drawing α :=
  { drawing with leaves := drawing.leaves.push placement }

def save (drawing : Drawing α) : Drawing α :=
  { drawing with saved := drawing.cursor :: drawing.saved }

/-- Goes back to the cursor saved last; without one nothing happens. -/
def restore (drawing : Drawing α) : Drawing α :=
  match drawing.saved with
  | [] => drawing
  | cursor :: saved => { drawing with cursor, saved }

end Drawing

/-- The drawing before the first symbol. -/
def Params.begin (params : Params α) (base : Vec3 α) : Drawing α :=
  { cursor := .start base (Scalar.max params.initialRadius params.minRadius) }

variable {σ : Type} [Generator σ]

/-- Draws a leaf size. Nothing is drawn when there is only one size. -/
def Params.drawLeafSize (params : Params α) : Sampling σ α :=
  let (low, high) :=
    if params.leafSizeMin ≤ params.leafSizeMax then (params.leafSizeMin, params.leafSizeMax)
    else (params.leafSizeMax, params.leafSizeMin)
  if low < high then drawRange low high else pure low

def Drawing.growLeaf (params : Params α) (drawing : Drawing α) : Sampling σ (Drawing α) := do
  let size ← params.drawLeafSize
  return drawing.addLeaf (Placement.leaf drawing.cursor.position size)

/-- The drawing after one more symbol, for a tree that stands at `base`. -/
def step (params : Params α) (base : Vec3 α) (drawing : Drawing α) (symbol : Symbol) :
    Sampling σ (Drawing α) :=
  match symbol with
  | 'F' =>
      let cursor := drawing.cursor.advance params.segmentLength
      let placement :=
        Placement.branch drawing.cursor.position cursor.position drawing.cursor.radius
      let drawing := { drawing with cursor }.addBranch placement
      if params.leafDistance < cursor.position.distance base then drawing.growLeaf params
      else pure drawing
  | 'f' => pure { drawing with cursor := drawing.cursor.advance params.segmentLength }
  | '+' => do
      let twist ← drawRange 0 Scalar.tau
      return { drawing with cursor := drawing.cursor.turn twist params.angleStep }
  | '-' => do
      let twist ← drawRange 0 Scalar.tau
      return { drawing with cursor := drawing.cursor.turn twist (-params.angleStep) }
  | '[' => pure drawing.save
  | ']' => pure drawing.restore
  | 'R' => pure { drawing with cursor := drawing.cursor.thin params }
  | 'L' => drawing.growLeaf params
  | _ => pure drawing

/-- Draws a word as a tree that stands at `base`. -/
def drawWord (params : Params α) (base : Vec3 α) (word : Word) : Sampling σ (Drawing α) :=
  word.foldlM (step params base) (params.begin base)

end Grove.Turtle
