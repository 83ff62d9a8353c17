/-!
# Sources of random words

A generator is a state from which one 32-bit word after the other is drawn.
-/

set_option autoImplicit false

namespace Grove

/-- A stream of 32-bit words. -/
class Generator (σ : Type) where
  /-- The next word, and the state that the following draw starts from. -/
  next : σ → UInt32 × σ

def draw {σ : Type} [Generator σ] : StateM σ UInt32 :=
  fun state => Generator.next state

structure Counted (σ : Type) where
  source : σ
  draws : Nat := 0

instance {σ : Type} [Generator σ] : Generator (Counted σ) where
  next counted :=
    let (word, source) := Generator.next counted.source
    (word, ⟨source, counted.draws + 1⟩)

/-- Listed words, drawn in turn and from the start again after the last. -/
structure Cycle where
  words : Array UInt32
  position : Nat := 0

instance : Generator Cycle where
  next cycle :=
    let position := cycle.position % cycle.words.size
    (cycle.words.getD position 0, { cycle with position := position + 1 })

instance {σ τ : Type} [Generator σ] [Generator τ] : Generator (σ ⊕ τ) where
  next
    | .inl state => let (word, state) := Generator.next state; (word, .inl state)
    | .inr state => let (word, state) := Generator.next state; (word, .inr state)

end Grove
