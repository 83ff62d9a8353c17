import Grove.Decimal.Shortest

/-!
# Decimals with a fixed number of places

The exact value is rounded to the given number of places, and halfway cases go to the even
neighbour.
-/

set_option autoImplicit false

namespace Grove.Decimal

/-- Writes a number with exactly `places` digits after the point. -/
def fixedText (places : Nat) (value : Float32) : List Char :=
  if value.isNaN then "NaN".toList
  else
    let number := Dyadic.ofFloat32 value
    let sign := if number.negative then ['-'] else []
    if !value.isFinite then sign ++ "inf".toList
    else
      let (numerator, denominator) := number.scaled places
      sign ++ positional (roundHalfEven numerator denominator) (-(places : Int))

end Grove.Decimal
