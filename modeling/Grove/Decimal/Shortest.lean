import Grove.Decimal.Dyadic
import Grove.Decimal.Reader

/-!
# The shortest decimal

A finite number of single precision is written with the fewest digits that read back as the same
number. Among texts with equally many digits the nearest one is taken, and halfway the greater.

The digits are found on grids of powers of ten, from the coarsest grid to the finest. On each grid
only the two neighbours of the number can be nearest to it, and grids with steps of more than ten
times the number are too coarse for it. The finest grid holds the number itself.
-/

set_option autoImplicit false

namespace Grove.Decimal

/-- Writes `digits * 10 ^ power` in positional notation. -/
def positional (digits : Nat) (power : Int) : List Char :=
  let written := Nat.toDigits 10 digits
  if 0 ≤ power then
    written ++ List.replicate power.toNat '0'
  else
    let places := (-power).toNat
    let padded := List.replicate (places + 1 - written.length) '0' ++ written
    padded.take (padded.length - places) ++ '.' :: padded.drop (padded.length - places)

/-- The powers of ten of the grids, coarsest first. -/
def gridPowers : List Int :=
  (List.range 188).map fun (step : Nat) => (38 : Int) - step

/-- The neighbours of a magnitude on one grid, the better one first. There are none on a grid that
is too coarse. -/
def neighbours (number : Dyadic) (power : Int) : List (Nat × Int) :=
  let (numerator, denominator) := number.scaled (-power)
  let below := numerator / denominator
  if 10 * numerator < denominator then []
  else if denominator ≤ 2 * (numerator % denominator) then [(below + 1, power), (below, power)]
  else [(below, power), (below + 1, power)]

/-- Whether a decimal, written in positional notation, reads back as the given positive number. -/
def readsBack (value : Float32) (decimal : Nat × Int) : Bool :=
  readFloat32? (positional decimal.1 decimal.2) == some value

def shortest (value : Float32) : Option (Nat × Int) :=
  gridPowers.findSome? fun power => (neighbours (.ofFloat32 value) power).find? (readsBack value)

def magnitudeText (value : Float32) : List Char :=
  (shortest value).elim [] fun (digits, power) => positional digits power

/-- The shortest text of any number of single precision: positional, without a point where there is
no fraction, and with the sign of zero. -/
def toText (value : Float32) : List Char :=
  if value.isNaN then "NaN".toList
  else
    let sign := if (Dyadic.ofFloat32 value).negative then ['-'] else []
    if !value.isFinite then sign ++ "inf".toList
    else if value == 0 then sign ++ ['0']
    else sign ++ magnitudeText value.abs

end Grove.Decimal
