/-!
# Reading numbers

A written number is an optional sign, then digits with an optional point among or around them, then
an optional exponent; at least one digit stands before the exponent. The words `inf`, `infinity`
and `nan` are numbers too, in any case. The value is the nearest number of the precision asked for.
-/

set_option autoImplicit false

namespace Grove.Decimal

inductive Reading where
  /-- The number `significand * 10 ^ exponent`. -/
  | finite (significand : Nat) (exponent : Int)
  | infinity
  | notANumber
  deriving DecidableEq

structure Signed where
  negative : Bool
  reading : Reading
  deriving DecidableEq

def digitsValue (digits : List Char) : Nat :=
  digits.foldl (fun value digit => 10 * value + (digit.toNat - '0'.toNat)) 0

/-- Splits off a sign; without one the text is positive. -/
def takeSign : List Char → Bool × List Char
  | '-' :: rest => (true, rest)
  | '+' :: rest => (false, rest)
  | text => (false, text)

/-- The value of an exponent part, which is empty or a letter `e`, an optional sign and digits. -/
def readExponent? : List Char → Option Int
  | [] => some 0
  | mark :: rest =>
      if mark = 'e' ∨ mark = 'E' then
        let (negative, digits) := takeSign rest
        if digits ≠ [] ∧ digits.all Char.isDigit then
          some (if negative then -(digitsValue digits : Int) else digitsValue digits)
        else none
      else none

def readDigits? (text : List Char) : Option Reading :=
  let whole := text.takeWhile Char.isDigit
  let rest := text.dropWhile Char.isDigit
  let (fraction, rest) :=
    match rest with
    | '.' :: after => (after.takeWhile Char.isDigit, after.dropWhile Char.isDigit)
    | _ => ([], rest)
  if whole = [] ∧ fraction = [] then none
  else
    (readExponent? rest).map fun exponent =>
      .finite (digitsValue (whole ++ fraction)) (exponent - fraction.length)

def read? (text : List Char) : Option Signed :=
  let (negative, rest) := takeSign text
  let word := rest.map Char.toLower
  if word = "inf".toList ∨ word = "infinity".toList then some ⟨negative, .infinity⟩
  else if word = "nan".toList then some ⟨negative, .notANumber⟩
  else (readDigits? rest).map (⟨negative, ·⟩)

/-- A decimal whose first digit stands above this place is greater than every finite number. -/
def highestPlace : Int := 400

/-- The power of ten that a decimal is below. -/
def magnitude (significand : Nat) (exponent : Int) : Int :=
  (Nat.toDigits 10 significand).length + exponent

/-- The nearest number of single precision; halfway cases go to the even one. -/
def Reading.toFloat32 : Reading → Float32
  | .finite significand exponent =>
      if significand = 0 then 0
      else if highestPlace < magnitude significand exponent then 1.0 / 0.0
      else if magnitude significand exponent < -highestPlace then 0
      else Float32.ofScientific significand (decide (exponent < 0)) exponent.natAbs
  | .infinity => 1.0 / 0.0
  | .notANumber => 0.0 / 0.0

/-- The nearest number of double precision; halfway cases go to the even one. -/
def Reading.toFloat : Reading → Float
  | .finite significand exponent =>
      if significand = 0 then 0
      else if highestPlace < magnitude significand exponent then 1.0 / 0.0
      else if magnitude significand exponent < -highestPlace then 0
      else Float.ofScientific significand (decide (exponent < 0)) exponent.natAbs
  | .infinity => 1.0 / 0.0
  | .notANumber => 0.0 / 0.0

def Signed.toFloat32 (number : Signed) : Float32 :=
  if number.negative then -number.reading.toFloat32 else number.reading.toFloat32

def Signed.toFloat (number : Signed) : Float :=
  if number.negative then -number.reading.toFloat else number.reading.toFloat

def readFloat32? (text : List Char) : Option Float32 :=
  (read? text).map Signed.toFloat32

end Grove.Decimal
