import Grove.Toml.Value

/-!
# Dates and times

A moment is a date, a time of day, or both, and may then have an offset. Its parts are checked
against the calendar and the clock.
-/

set_option autoImplicit false

namespace Grove.Toml

def twoDigits (least greatest : Nat) : Reader Nat
  | tens :: ones :: rest =>
      let value := Decimal.digitsValue [tens, ones]
      if tens.isDigit && ones.isDigit && decide (least ≤ value) && decide (value ≤ greatest) then
        some (value, rest)
      else none
  | _ => none

/-- The text after a given character. -/
def after? (expected : Char) : List Char → Option (List Char)
  | character :: rest => if character = expected then some rest else none
  | [] => none

def isLeapYear (year : Nat) : Bool :=
  year % 4 == 0 && (year % 100 != 0 || year % 400 == 0)

def daysInMonth (year month : Nat) : Nat :=
  if month = 2 then if isLeapYear year then 29 else 28
  else if month = 4 ∨ month = 6 ∨ month = 9 ∨ month = 11 then 30
  else 31

/-- Whether a text starts like a date: with four digits and a hyphen. -/
def startsDate : List Char → Bool
  | a :: b :: c :: d :: '-' :: _ => [a, b, c, d].all Char.isDigit
  | _ => false

/-- Whether a text starts like a time of day: with two digits and a colon. -/
def startsTime : List Char → Bool
  | a :: b :: ':' :: _ => [a, b].all Char.isDigit
  | _ => false

/-- The text after a date. -/
def afterDate? : List Char → Option (List Char)
  | a :: b :: c :: d :: '-' :: rest => do
      let year := Decimal.digitsValue [a, b, c, d]
      let (month, rest) ← twoDigits 1 12 rest
      let rest ← after? '-' rest
      let (_, rest) ← twoDigits 1 (daysInMonth year month) rest
      return rest
  | _ => none

/-- The text after a fraction of a second, if there is one. -/
def afterFraction? : List Char → Option (List Char)
  | '.' :: digit :: rest => if digit.isDigit then some (rest.dropWhile Char.isDigit) else none
  | text => some text

/-- The text after a time of day. -/
def afterTime? (text : List Char) : Option (List Char) := do
  let (_, rest) ← twoDigits 0 23 text
  let rest ← after? ':' rest
  let (_, rest) ← twoDigits 0 59 rest
  let rest ← after? ':' rest
  let (_, rest) ← twoDigits 0 60 rest
  afterFraction? rest

/-- The text after an offset, if there is one. -/
def afterOffset? : List Char → Option (List Char)
  | 'Z' :: rest | 'z' :: rest => some rest
  | '+' :: rest | '-' :: rest => do
      let (_, rest) ← twoDigits 0 23 rest
      let rest ← after? ':' rest
      let (_, rest) ← twoDigits 0 59 rest
      return rest
  | text => some text

/-- The text after a time of day that may follow a date. -/
def afterTimeOfDate? : List Char → Option (List Char)
  | 'T' :: rest | 't' :: rest => do afterOffset? (← afterTime? rest)
  | ' ' :: rest => if startsTime rest then do afterOffset? (← afterTime? rest) else some (' ' :: rest)
  | text => some text

def moment : Reader Value := fun text => do
  let rest ← if startsDate text then do afterTimeOfDate? (← afterDate? text) else afterTime? text
  return (.moment, rest)

end Grove.Toml
