/-!
# Cutting text

Lines, and the two sides of the first occurrence of a mark.
-/

set_option autoImplicit false

namespace Grove.Text

/-- The pieces between line feeds. There is one more piece than there are line feeds. -/
def lines : List Char → List (List Char)
  | [] => [[]]
  | '\n' :: rest => [] :: lines rest
  | character :: rest =>
      match lines rest with
      | [] => [[character]]
      | piece :: pieces => (character :: piece) :: pieces

/-- The text before and after the first occurrence of a character. -/
def cutAt? (mark : Char) : List Char → Option (List Char × List Char)
  | [] => none
  | character :: rest =>
      if character = mark then some ([], rest)
      else (cutAt? mark rest).map fun (before, after) => (character :: before, after)

/-- The text before and after the first arrow `->`. -/
def cutAtArrow? : List Char → Option (List Char × List Char)
  | [] => none
  | '-' :: '>' :: rest => some ([], rest)
  | character :: rest =>
      (cutAtArrow? rest).map fun (before, after) => (character :: before, after)

end Grove.Text
