import Grove.Decimal.Shortest
import Grove.Grammar.Rules
import Grove.Text.Blank
import Grove.Text.Cut

/-!
# Rule text

A table of rules is written with one symbol on a line,

    F -> 0.6:F[+F]F | 0.4:F[-F]F

Each alternative is a weight, a colon and the replacement; without a colon the weight is one.
Blank lines, and lines that start with `#`, say nothing. A symbol that comes again adds to its
alternatives. A backslash makes the next character literal, so that `|`, `#` and the backslash can
be symbols themselves.
-/

set_option autoImplicit false

namespace Grove

inductive RuleProblem where
  | missingArrow
  | notSingleSymbol
  | danglingEscape
  | badWeight (text : List Char)
  | weightOutOfRange
  deriving DecidableEq

/-- A problem with rule text, and the line it stands on, counted from one. -/
structure RuleError where
  line : Nat
  problem : RuleProblem
  deriving DecidableEq

def RuleProblem.message : RuleProblem → String
  | .missingArrow => "missing \x60->\x60"
  | .notSingleSymbol => "left-hand side must be a single symbol"
  | .danglingEscape => "dangling \x60\\\x60"
  | .badWeight text => "bad probability \x60" ++ String.ofList text ++ "\x60"
  | .weightOutOfRange => "probability must be a finite non-negative number"

def RuleError.message (error : RuleError) : String :=
  "rule line " ++ toString error.line ++ ": " ++ error.problem.message

namespace RuleText

open Text

def isSpecial (character : Char) : Bool :=
  character == '\\' || character == '|' || character == '#'

/-- Puts a backslash before every special character. -/
def escape : List Char → List Char
  | [] => []
  | character :: rest =>
      if isSpecial character then '\\' :: character :: escape rest
      else character :: escape rest

/-- Drops the escaping backslashes. A backslash at the end escapes nothing and is refused. -/
def unescape : List Char → Except RuleProblem (List Char)
  | [] => .ok []
  | ['\\'] => .error .danglingEscape
  | '\\' :: character :: rest => (unescape rest).map (character :: ·)
  | character :: rest => (unescape rest).map (character :: ·)

def extendFirst (character : Char) : List (List Char) → List (List Char)
  | [] => [[character]]
  | piece :: pieces => (character :: piece) :: pieces

/-- Cuts at every bar that no backslash escapes. The backslashes stay. -/
def cutAtBars : List Char → List (List Char)
  | [] => [[]]
  | '|' :: rest => [] :: cutAtBars rest
  | '\\' :: character :: rest =>
      extendFirst '\\' (extendFirst character (cutAtBars rest))
  | character :: rest => extendFirst character (cutAtBars rest)

/-- Reads a weight, which is finite and not below zero. -/
def parseWeight (text : List Char) : Except RuleProblem Float32 :=
  match Decimal.readFloat32? text with
  | none => .error (.badWeight text)
  | some weight =>
      if !weight.isFinite || decide (weight < 0) then .error .weightOutOfRange else .ok weight

/-- Reads one alternative. The first colon, if there is one, ends the weight. -/
def parseAlternative (text : List Char) : Except RuleProblem Production :=
  match cutAt? ':' text with
  | some (weightText, replacementText) => do
      let weight ← parseWeight (trim weightText)
      let replacement ← unescape (trim replacementText)
      return ⟨weight, replacement⟩
  | none => do
      let replacement ← unescape text
      return ⟨1.0, replacement⟩

def parseSymbol (text : List Char) : Except RuleProblem Symbol := do
  match ← unescape (trim text) with
  | [symbol] => return symbol
  | _ => throw .notSingleSymbol

def parseRule (line : List Char) : Except RuleProblem (Symbol × List Production) :=
  match cutAtArrow? line with
  | none => .error .missingArrow
  | some (left, right) => do
      let symbol ← parseSymbol left
      let productions ← (cutAtBars right).mapM fun piece => parseAlternative (trim piece)
      return (symbol, productions)

/-- Whether a trimmed line says nothing. -/
def saysNothing (line : List Char) : Bool :=
  line.isEmpty || line.head? == some '#'

/-- Reads lines into a table, the first of them having the given number. -/
def parseLines (number : Nat) (rules : Rules) : List (List Char) → Except RuleError Rules
  | [] => .ok rules
  | line :: rest =>
      if saysNothing (trim line) then parseLines (number + 1) rules rest
      else
        match parseRule (trim line) with
        | .error problem => .error ⟨number, problem⟩
        | .ok (symbol, productions) =>
            parseLines (number + 1) (rules.append symbol productions) rest

def alternativeText (production : Production) : List Char :=
  Decimal.toText production.weight ++ ':' :: escape production.replacement

def alternativesText : List Production → List Char
  | [] => []
  | [production] => alternativeText production
  | production :: rest => alternativeText production ++ " | ".toList ++ alternativesText rest

def entryText (entry : Symbol × List Production) : List Char :=
  escape [entry.1] ++ " -> ".toList ++ alternativesText entry.2 ++ ['\n']

end RuleText

namespace Rules

/-- Reads rule text. The error is that of the first bad line. -/
def parse (text : List Char) : Except RuleError Rules :=
  RuleText.parseLines 1 empty (Text.lines text)

def toText (rules : Rules) : List Char :=
  rules.entries.flatMap RuleText.entryText

end Rules

end Grove
