import Grove.Toml.Space

/-!
# Quoted strings

Basic strings stand in double quotes and know escapes; literal strings stand in single quotes and
know none. Either kind may run over several lines between tripled quotes. There a line end is a
line feed however it is written, the one after the opening quotes is dropped, and up to two quotes
may stand before the closing ones.
-/

set_option autoImplicit false

namespace Grove.Toml

def prepend (character : Char) : Option (List Char × List Char) → Option (List Char × List Char)
  | some (read, rest) => some (character :: read, rest)
  | none => none

def isBasicCharacter (character : Char) : Bool :=
  isCommentCharacter character && character != '"' && character != '\\'

def isLiteralCharacter (character : Char) : Bool :=
  isCommentCharacter character && character != '\''

def hexDigit? (character : Char) : Option Nat :=
  if '0' ≤ character && character ≤ '9' then some (character.toNat - '0'.toNat)
  else if 'a' ≤ character && character ≤ 'f' then some (character.toNat - 'a'.toNat + 10)
  else if 'A' ≤ character && character ≤ 'F' then some (character.toNat - 'A'.toNat + 10)
  else none

/-- The character with the code point that is written in hexadecimal digits. -/
def codePoint? (digits : List Char) : Option Char := do
  let values ← digits.mapM hexDigit?
  let code := values.foldl (fun code value => 16 * code + value) 0
  if code.isValidChar then some (Char.ofNat code) else none

def escapedLetter? : Char → Option Char
  | 'b' => some '\x08'
  | 't' => some '\t'
  | 'n' => some '\n'
  | 'f' => some '\x0c'
  | 'r' => some '\r'
  | '"' => some '"'
  | '\\' => some '\\'
  | _ => none

/-- Reads a basic string after its opening quote. -/
def basicBody : Reader (List Char)
  | [] => none
  | '"' :: rest => some ([], rest)
  | '\\' :: 'u' :: a :: b :: c :: d :: rest =>
      (codePoint? [a, b, c, d]).bind fun character => prepend character (basicBody rest)
  | '\\' :: 'U' :: a :: b :: c :: d :: e :: f :: g :: h :: rest =>
      (codePoint? [a, b, c, d, e, f, g, h]).bind fun character =>
        prepend character (basicBody rest)
  | '\\' :: letter :: rest =>
      (escapedLetter? letter).bind fun character => prepend character (basicBody rest)
  | character :: rest =>
      if isBasicCharacter character then prepend character (basicBody rest) else none

/-- The quotes that stand before the closing ones, once those have been met. -/
def closingQuotes (quote : Char) : List Char → List Char × List Char
  | first :: second :: rest =>
      if first = quote then
        if second = quote then ([quote, quote], rest) else ([quote], second :: rest)
      else ([], first :: second :: rest)
  | [first] => if first = quote then ([quote], []) else ([], [first])
  | [] => ([], [])

/-- Reads a basic string over several lines, after its opening quotes. The flag tells whether blanks
and line ends are being dropped, as they are after a backslash at the end of a line. -/
def basicLines (dropping : Bool) : Reader (List Char)
  | [] => none
  | '"' :: '"' :: '"' :: rest => some (closingQuotes '"' rest)
  | '\r' :: '\n' :: rest =>
      if dropping then basicLines true rest else prepend '\n' (basicLines false rest)
  | '\n' :: rest =>
      if dropping then basicLines true rest else prepend '\n' (basicLines false rest)
  | '\\' :: 'u' :: a :: b :: c :: d :: rest =>
      (codePoint? [a, b, c, d]).bind fun character => prepend character (basicLines false rest)
  | '\\' :: 'U' :: a :: b :: c :: d :: e :: f :: g :: h :: rest =>
      (codePoint? [a, b, c, d, e, f, g, h]).bind fun character =>
        prepend character (basicLines false rest)
  | '\\' :: letter :: rest =>
      match escapedLetter? letter with
      | some character => prepend character (basicLines false rest)
      | none =>
          if (afterNewline? (skipSpace (letter :: rest))).isSome then basicLines true (letter :: rest)
          else none
  | character :: rest =>
      if dropping && isSpace character then basicLines true rest
      else if isBasicCharacter character || character == '"' then
        prepend character (basicLines false rest)
      else none

/-- Reads a literal string after its opening quote. -/
def literalBody : Reader (List Char)
  | [] => none
  | '\'' :: rest => some ([], rest)
  | character :: rest =>
      if isLiteralCharacter character then prepend character (literalBody rest) else none

/-- Reads a literal string over several lines, after its opening quotes. -/
def literalLines : Reader (List Char)
  | [] => none
  | '\'' :: '\'' :: '\'' :: rest => some (closingQuotes '\'' rest)
  | '\r' :: '\n' :: rest => prepend '\n' (literalLines rest)
  | '\n' :: rest => prepend '\n' (literalLines rest)
  | character :: rest =>
      if isLiteralCharacter character || character == '\'' then
        prepend character (literalLines rest)
      else none

def dropFirstNewline (text : List Char) : List Char :=
  (afterNewline? text).getD text

def quoted : Reader (List Char)
  | '"' :: '"' :: '"' :: rest => basicLines false (dropFirstNewline rest)
  | '\'' :: '\'' :: '\'' :: rest => literalLines (dropFirstNewline rest)
  | '"' :: rest => basicBody rest
  | '\'' :: rest => literalBody rest
  | _ => none

end Grove.Toml
