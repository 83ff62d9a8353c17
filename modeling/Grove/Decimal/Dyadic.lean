/-!
# Single precision as dyadic fractions

A finite number of single precision is an integer times a power of two. Here that form is read off
its bits, and rounded exactly. Whole numbers are rounded to a number of binary digits.
-/

set_option autoImplicit false

namespace Grove.Decimal

/-- The number `significand * 2 ^ exponent`, or its negation. -/
structure Dyadic where
  negative : Bool
  significand : Nat
  exponent : Int

namespace Dyadic

def ofFloat32 (value : Float32) : Dyadic :=
  let bits : Nat := value.toBits.toNat
  let negative := bits / 0x80000000 == 1
  let biased : Nat := bits / 0x800000 % 0x100
  let fraction : Nat := bits % 0x800000
  if biased = 0 then ⟨negative, fraction, -149⟩
  else ⟨negative, fraction + 0x800000, (biased : Int) - 150⟩

def scaled (number : Dyadic) (power : Int) : Nat × Nat :=
  (number.significand * Nat.pow 2 number.exponent.toNat * Nat.pow 10 power.toNat,
   Nat.pow 2 (-number.exponent).toNat * Nat.pow 10 (-power).toNat)

end Dyadic

/-- The integer nearest to a quotient; halfway cases go to the even one. -/
def roundHalfEven (numerator denominator : Nat) : Nat :=
  let whole := numerator / denominator
  let twice := 2 * (numerator % denominator)
  if twice < denominator then whole
  else if denominator < twice then whole + 1
  else whole + whole % 2

/-- The natural number nearest to another among those whose binary digits, but for zeros at the end,
fit into `width`; halfway cases go to the one with an even last digit. -/
def roundToBits (width value : Nat) : Nat :=
  let unit := Nat.pow 2 (value.log2 + 1 - width)
  roundHalfEven value unit * unit

end Grove.Decimal
