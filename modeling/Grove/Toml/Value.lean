import Grove.Decimal.Reader

/-!
# TOML values

What a document says, free of how it is written. Numbers keep their digits, so that the reader of a
value chooses the precision. Of dates and times only the presence is kept.
-/

set_option autoImplicit false

namespace Grove.Toml

/-- A key, without its quotes. -/
abbrev Key := List Char

inductive Value where
  | string (text : List Char)
  | integer (value : Int)
  | float (number : Decimal.Signed)
  | boolean (value : Bool)
  | moment
  | array (items : List Value)
  /-- Each key stands once. -/
  | table (entries : List (Key × Value))

/-- A document is read from left to right. A reader takes something from the front of the text, or
refuses it. -/
abbrev Reader (β : Type) := List Char → Option (β × List Char)

end Grove.Toml
