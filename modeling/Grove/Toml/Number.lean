import Grove.Toml.Value

/-!
# Numbers

Integers are written in decimal, or without a sign in one of three other bases, and have 64 bits.
Floats have a fraction or an exponent or are named. Underscores may stand between digits, and a
decimal integer part has no leading zeros.
-/

set_option autoImplicit false

namespace Grove.Toml

/-- Reads the digits after the first one. -/
def moreDigits (isDigit : Char → Bool) : Reader (List Char)
  | [] => some ([], [])
  | '_' :: digit :: rest =>
      if isDigit digit then
        (moreDigits isDigit rest).map fun (digits, rest) => (digit :: digits, rest)
      else none
  | character :: rest =>
      if character = '_' then none
      else if isDigit character then
        (moreDigits isDigit rest).map fun (digits, rest) => (character :: digits, rest)
      else some ([], character :: rest)

def digits (isDigit : Char → Bool) : Reader (List Char)
  | [] => none
  | digit :: rest =>
      if isDigit digit then
        (moreDigits isDigit rest).map fun (digits, rest) => (digit :: digits, rest)
      else none

/-- Reads a run of digits that starts with a zero only if it is nothing but a zero. -/
def wholeDigits : Reader (List Char)
  | '0' :: rest => some (['0'], rest)
  | text => digits Char.isDigit text

def digitValue (digit : Char) : Nat :=
  if digit.isDigit then digit.toNat - '0'.toNat
  else digit.toLower.toNat - 'a'.toNat + 10

def valueInBase (base : Nat) (digits : List Char) : Nat :=
  digits.foldl (fun value digit => base * value + digitValue digit) 0

/-- Integers have 64 bits. -/
def integer? (value : Int) : Option Value :=
  if -0x8000000000000000 ≤ value ∧ value < 0x8000000000000000 then some (.integer value) else none

/-- Reads an integer in the given base, after the mark of the base. -/
def basedInteger (base : Nat) (isDigit : Char → Bool) : Reader Value := fun text => do
  let (written, rest) ← digits isDigit text
  let value ← integer? (valueInBase base written)
  return (value, rest)

def isOctalDigit (character : Char) : Bool :=
  '0' ≤ character && character ≤ '7'

def isBinaryDigit (character : Char) : Bool :=
  character == '0' || character == '1'

def isHexDigit (character : Char) : Bool :=
  character.isDigit || ('a' ≤ character && character ≤ 'f') ||
    ('A' ≤ character && character ≤ 'F')

/-- Reads an exponent after its letter. -/
def exponentPart : Reader Int := fun text => do
  let (negative, text) := Decimal.takeSign text
  let (written, rest) ← digits Char.isDigit text
  let size : Int := Decimal.digitsValue written
  return (if negative then -size else size, rest)

def optionalExponent : Reader Int
  | 'e' :: rest => exponentPart rest
  | 'E' :: rest => exponentPart rest
  | text => some (0, text)

/-- A float, unless it is greater than every number of double precision. -/
def float? (number : Decimal.Signed) : Option Value :=
  if number.toFloat == 1.0 / 0.0 then none else some (.float number)

/-- Reads a decimal number after its sign. -/
def unsignedNumber (negative : Bool) : Reader Value := fun text => do
  let (whole, rest) ← wholeDigits text
  let finite (fraction : List Char) (exponent : Int) : Option Value :=
    float? ⟨negative,
      .finite (Decimal.digitsValue (whole ++ fraction)) (exponent - fraction.length)⟩
  match rest with
  | '.' :: after =>
      let (fraction, after) ← digits Char.isDigit after
      let (exponent, after) ← optionalExponent after
      return (← finite fraction exponent, after)
  | 'e' :: after | 'E' :: after =>
      let (exponent, after) ← exponentPart after
      return (← finite [] exponent, after)
  | _ =>
      let size : Int := Decimal.digitsValue whole
      return (← integer? (if negative then -size else size), rest)

/-- Reads a number after its sign, which may be one of the named ones. -/
def signedNumber (negative : Bool) : Reader Value
  | 'i' :: 'n' :: 'f' :: rest => some (.float ⟨negative, .infinity⟩, rest)
  | 'n' :: 'a' :: 'n' :: rest => some (.float ⟨negative, .notANumber⟩, rest)
  | text => unsignedNumber negative text

def number : Reader Value
  | '0' :: 'x' :: rest => basedInteger 16 isHexDigit rest
  | '0' :: 'o' :: rest => basedInteger 8 isOctalDigit rest
  | '0' :: 'b' :: rest => basedInteger 2 isBinaryDigit rest
  | text =>
      let (negative, rest) := Decimal.takeSign text
      signedNumber negative rest

end Grove.Toml
