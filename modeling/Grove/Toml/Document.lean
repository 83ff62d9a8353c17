import Grove.Toml.Moment
import Grove.Toml.Number
import Grove.Toml.Quoted
import Grove.Toml.Tree

/-!
# TOML documents

A document is a list of statements, one on a line: headers that open tables, and keys with their
values. It may start with a byte order mark.

Arrays and inline tables nest, and keys are dotted, less than eighty levels deep.
-/

set_option autoImplicit false

namespace Grove.Toml

/-- Nesting and dotted keys stay below this depth. -/
def depthLimit : Nat := 80

/-- Characters of keys without quotes. -/
def isBareKeyCharacter (character : Char) : Bool :=
  character.isAlphanum || character == '-' || character == '_'

def keyPart : Reader Key
  | '"' :: rest => basicBody rest
  | '\'' :: rest => literalBody rest
  | text =>
      let name := text.takeWhile isBareKeyCharacter
      if name.isEmpty then none else some (name, text.dropWhile isBareKeyCharacter)

/-- Reads the parts of a dotted key, at most as many as the first argument says. Blanks may stand
around each part. -/
def keyParts : Nat → Reader (List Key)
  | 0, _ => none
  | limit + 1, text => do
      let (part, rest) ← keyPart (skipSpace text)
      match skipSpace rest with
      | '.' :: rest =>
          let (parts, rest) ← keyParts limit rest
          return (part :: parts, rest)
      | rest => return ([part], rest)

/-- Reads a key: the path to a table, and a key of that table. -/
def key : Reader (List Key × Key) := fun text => do
  let (parts, rest) ← keyParts (depthLimit - 1) text
  let last ← parts.getLast?
  return ((parts.dropLast, last), rest)

/-- The text after an equals sign and the blanks around it. -/
def afterEquals? (text : List Char) : Option (List Char) :=
  match skipSpace text with
  | '=' :: rest => some (skipSpace rest)
  | _ => none

def plainValue : Reader Value := fun text =>
  match text with
  | 't' :: 'r' :: 'u' :: 'e' :: rest => some (.boolean true, rest)
  | 'f' :: 'a' :: 'l' :: 's' :: 'e' :: rest => some (.boolean false, rest)
  | '"' :: _ | '\'' :: _ => (quoted text).map fun (string, rest) => (.string string, rest)
  | _ => if startsDate text || startsTime text then moment text else number text

mutual

def valueAt : Nat → Nat → Reader Value
  | 0, _, _ => none
  | fuel + 1, depth, text =>
      match text with
      | '[' :: rest =>
          if depth + 1 < depthLimit then do
            let (items, rest) ← itemsAt fuel (depth + 1) (skipLines false rest)
            return (.array items, rest)
          else none
      | '\x7b' :: rest =>
          if depth + 1 < depthLimit then do
            let (entries, rest) ← pairsAt fuel (depth + 1) true [] (skipSpace rest)
            return (.table (entriesValue entries), rest)
          else none
      | _ => plainValue text

def itemsAt : Nat → Nat → Reader (List Value)
  | 0, _, _ => none
  | fuel + 1, depth, text =>
      match text with
      | ']' :: rest => some ([], rest)
      | _ => do
          let (item, rest) ← valueAt fuel depth text
          match skipLines false rest with
          | ',' :: rest =>
              let (items, rest) ← itemsAt fuel depth (skipLines false rest)
              return (item :: items, rest)
          | ']' :: rest => return ([item], rest)
          | _ => none

/-- Reads the pairs of an inline table and its closing brace. The flag tells whether the brace may
come at once, as it may only before the first pair. -/
def pairsAt : Nat → Nat → Bool → Entries → Reader Entries
  | 0, _, _, _, _ => none
  | fuel + 1, depth, first, entries, text =>
      match first, text with
      | true, '\x7d' :: rest => some (entries, rest)
      | _, _ => do
          let ((path, last), rest) ← key text
          let (value, rest) ← valueAt fuel depth (← afterEquals? rest)
          let entries ← entries.assign? path last value
          match skipSpace rest with
          | ',' :: rest => pairsAt fuel depth false entries (skipSpace rest)
          | '\x7d' :: rest => return (entries, rest)
          | _ => none

end

def value : Reader Value := fun text =>
  valueAt (2 * text.length + 1) 0 text

structure Draft where
  /-- The path of the header that is in force. -/
  header : List Key := []
  entries : Entries := []

namespace Draft

/-- Reads a header after its opening brackets, and opens its table or element. -/
def readHeader? (draft : Draft) (element : Bool) (text : List Char) :
    Option (Draft × List Char) := do
  let ((path, last), rest) ← key text
  let rest ← after? ']' rest
  let rest ← if element then after? ']' rest else some rest
  let entries ← if element then draft.entries.openElement? path last
    else draft.entries.openTable? path last
  return (⟨path ++ [last], entries⟩, rest)

def readPair? (draft : Draft) (text : List Char) : Option (Draft × List Char) := do
  let ((path, last), rest) ← key text
  let (value, rest) ← value (← afterEquals? rest)
  let entries ← draft.entries.assignUnder? draft.header path last value
  return ({ draft with entries }, rest)

def readStatement? (draft : Draft) : List Char → Option (Draft × List Char)
  | '[' :: '[' :: rest => draft.readHeader? true rest
  | '[' :: rest => draft.readHeader? false rest
  | text => draft.readPair? text

/-- Reads the statements of a document. Each line takes one step. -/
def readLines? : Nat → Draft → List Char → Option Draft
  | 0, _, _ => none
  | steps + 1, draft, text =>
      match skipLines false text with
      | [] => some draft
      | text => do
          let (draft, rest) ← draft.readStatement? text
          readLines? steps draft (← afterStatement? rest)

end Draft

/-- Drops a byte order mark. -/
def dropMark : List Char → List Char
  | '\ufeff' :: rest => rest
  | text => text

def document? (text : List Char) : Option (List (Key × Value)) := do
  let text := dropMark text
  let draft ← Draft.readLines? (text.length + 1) {} text
  return entriesValue draft.entries

end Grove.Toml
