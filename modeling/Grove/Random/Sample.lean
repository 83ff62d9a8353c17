import Grove.Random.Generator
import Grove.Scalar

/-!
# Random numbers

Numbers made from one random word each: a fraction in `[0, 1)`, and a number in a given range.
A range can only be sampled when its ends are in order and its width is finite.
-/

set_option autoImplicit false

namespace Grove

/-- Why a range cannot be sampled. -/
inductive SampleError where
  | emptyRange
  | infiniteWidth
  deriving DecidableEq

/-- Computations that draw random words and may meet a range that cannot be sampled. -/
abbrev Sampling (σ : Type) := StateT σ (Except SampleError)

/-- Draws that cannot fail. -/
def Sampling.lift {σ β : Type} (draws : StateM σ β) : Sampling σ β :=
  fun state => .ok (draws.run state)

/-- A multiple of `2 ^ -24` in `[0, 1)`. -/
def drawFraction {σ : Type} [Generator σ] : StateM σ Float32 := do
  let word ← draw
  return (word >>> 8).toFloat32 / 16777216.0

/-- The fraction that a random word stands for when a range is sampled: a multiple of `2 ^ -23` in
`[0, 1)`. -/
def rangeFraction {α : Type} [Scalar α] (word : UInt32) : α :=
  Scalar.ofNat (word >>> 9).toNat / 8388608.0

/-- Draws a number from `low` to `high`. -/
def drawRange {α σ : Type} [Scalar α] [Generator σ] (low high : α) : Sampling σ α := do
  if low ≤ high then
    let width := high - low
    if Scalar.isFinite width then
      let word ← Sampling.lift draw
      return rangeFraction word * width + low
    else throw .infiniteWidth
  else throw .emptyRange

end Grove
