import Grove.Grammar.Rules
import Grove.Random.Sample

/-!
# Expansion of words

In every pass each symbol that has productions is replaced by one of them, chosen by a random
draw; terminals are kept. Symbols are taken from left to right.
-/

set_option autoImplicit false

namespace Grove

/-- Skips productions until the running sum of the weights reaches `target`. -/
def chooseFrom (target sum : Float32) : List Production → Option Production
  | [] => none
  | production :: rest =>
      let sum := sum + production.weight
      if target ≤ sum then some production else chooseFrom target sum rest

/-- The first production at which the running sum of the weights reaches `target`, or else the
last one. -/
def choose (productions : List Production) (target : Float32) : Option Production :=
  (chooseFrom target 0 productions).or productions.getLast?

variable {σ : Type} [Generator σ]

/-- Chooses a production by one draw; the draw is made even when there is none. -/
def drawProduction (productions : List Production) : StateM σ (Option Production) := do
  let target ← drawFraction
  return choose productions target

namespace Rules

def replaceSymbol (rules : Rules) (symbol : Symbol) : StateM σ Word :=
  match rules.get? symbol with
  | none => pure [symbol]
  | some productions => do
      match ← drawProduction productions with
      | some production => return production.replacement
      | none => return [symbol]

def pass (rules : Rules) (word : Word) : StateM σ Word := do
  return (← word.mapM rules.replaceSymbol).flatten

def passes (rules : Rules) : Nat → Word → StateM σ Word
  | 0, word => pure word
  | left + 1, word => do rules.passes left (← rules.pass word)

/-- The word grown from an axiom. A table of terminals leaves it as it is, however many passes are
asked for. -/
def expand (rules : Rules) (start : Word) (passes : Nat) : StateM σ Word :=
  if rules.isEmpty then pure start else rules.passes passes start

end Rules

end Grove
