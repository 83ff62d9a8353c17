/-!
# Scalars

Everything geometric in this library is written over one class of numbers, so that the same
definitions can be run in single precision and studied in exact arithmetic. The class asks for the
operations and no laws: single precision keeps few of them.
-/

set_option autoImplicit false

namespace Grove

/-- Numbers with field operations, decimal literals, comparisons, a square root and the circular
functions. -/
class Scalar (α : Type) extends
    Zero α, One α, Add α, Sub α, Mul α, Div α, Neg α, OfScientific α, LT α, LE α, BEq α where
  decidableLT : DecidableLT α
  decidableLE : DecidableLE α
  abs : α → α
  sqrt : α → α
  sin : α → α
  cos : α → α
  tan : α → α
  /-- Half a turn, in radians. -/
  pi : α
  /-- Tells numbers from the infinities and from what is not a number. -/
  isFinite : α → Bool

attribute [reducible, instance] Scalar.decidableLT Scalar.decidableLE

namespace Scalar

variable {α : Type} [Scalar α]

/-- The scalar nearest to a natural number. -/
def ofNat (count : Nat) : α :=
  OfScientific.ofScientific count false 0

/-- Only what is not a number differs from itself. -/
def isNaN (value : α) : Bool :=
  !(value == value)

/-- The greater of two scalars; the other one where one of them is not a number. -/
def max (left right : α) : α :=
  if isNaN left then right else if left < right then right else left

/-- The smaller of two scalars; the other one where one of them is not a number. -/
def min (left right : α) : α :=
  if isNaN left then right else if right < left then right else left

/-- Moves a value into an interval. What is not a number stays as it is. -/
def clamp (value low high : α) : α :=
  let raised := if value < low then low else value
  if high < raised then high else raised

/-- Moves a value into an interval, in the order that puts what is not a number above everything.
A value equal to an end becomes that end. -/
def clampTotal (value low high : α) : α :=
  if isNaN value then high
  else if value ≤ low then low
  else if high ≤ value then high
  else value

/-- A full turn, in radians. -/
def tau : α := 2.0 * pi

/-- A right angle, in radians. -/
def rightAngle : α := pi / 2.0

/-- The angle in radians of an angle in degrees. -/
def toRadians (degrees : α) : α :=
  degrees * (pi / 180.0)

def epsilon : α := 1.1920928955078125e-7

end Scalar

/-- Single precision. The number nearest to half a turn is `0x40490fdb`. -/
instance : Scalar Float32 where
  decidableLT := fun left right => Float32.decLt left right
  decidableLE := fun left right => Float32.decLe left right
  abs := Float32.abs
  sqrt := Float32.sqrt
  sin := Float32.sin
  cos := Float32.cos
  tan := Float32.tan
  pi := Float32.ofBits 0x40490fdb
  isFinite := Float32.isFinite

end Grove
