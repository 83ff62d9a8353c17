import Grove.Toml.Value

/-!
# Space, comments and line ends

Blanks are spaces and tabs. A comment runs from a number sign to the end of the line and holds no
control characters but tabs. A line ends with a line feed, which a carriage return may precede.
-/

set_option autoImplicit false

namespace Grove.Toml

def isSpace (character : Char) : Bool :=
  character == ' ' || character == '\t'

def skipSpace (text : List Char) : List Char :=
  text.dropWhile isSpace

def isCommentCharacter (character : Char) : Bool :=
  character == '\t' || (' ' ≤ character && character != '\x7f')

/-- The text after a line end. -/
def afterNewline? : List Char → Option (List Char)
  | '\n' :: rest => some rest
  | '\r' :: '\n' :: rest => some rest
  | _ => none

/-- The text after the end of a line or of the document. -/
def afterLineEnd? : List Char → Option (List Char)
  | [] => some []
  | text => afterNewline? text

/-- The text after what may follow a statement on its line: blanks and a comment. -/
def afterStatement? (text : List Char) : Option (List Char) :=
  match skipSpace text with
  | '#' :: rest => afterLineEnd? (rest.dropWhile isCommentCharacter)
  | rest => afterLineEnd? rest

/-- Skips blanks, line ends and comments. The flag tells whether the text starts inside a
comment. -/
def skipLines (comment : Bool) : List Char → List Char
  | [] => []
  | '\n' :: rest => skipLines false rest
  | '\r' :: '\n' :: rest => skipLines false rest
  | character :: rest =>
      if comment then
        if isCommentCharacter character then skipLines true rest else character :: rest
      else if isSpace character then skipLines false rest
      else if character = '#' then skipLines true rest
      else character :: rest

end Grove.Toml
