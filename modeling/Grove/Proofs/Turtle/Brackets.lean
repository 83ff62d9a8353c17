import Grove.Config.Basic
import Grove.Proofs.Grammar.Expansion
import Grove.Proofs.Turtle.Counts

/-!
# Brackets

A balanced word closes every bracket that it opens, and no bracket before it is open. Productions
with balanced replacements expand balanced words to balanced words, and a turtle that walks one
always finds a saved cursor where it goes back to one.
-/

set_option autoImplicit false

namespace Grove

structure Word.Balanced (word : Word) : Prop where
  opened : ∀ part, part <+: word → part.count ']' ≤ part.count '['
  closed : word.count ']' = word.count '['

/-- The number of open brackets after a symbol, unless the symbol closes one where none is open. -/
def Symbol.openAfter? (count : Nat) (symbol : Symbol) : Option Nat :=
  match symbol with
  | '[' => some (count + 1)
  | ']' => if count = 0 then none else some (count - 1)
  | _ => some count

def Word.openAfter? (count : Nat) (word : Word) : Option Nat :=
  word.foldlM Symbol.openAfter? count

namespace Symbol

theorem openAfter?_eq_some_iff {count final : Nat} {symbol : Symbol} :
    openAfter? count symbol = some final ↔
      final + [symbol].count ']' = count + [symbol].count '[' := by
  unfold openAfter?
  split
  · simp [eq_comm]
  · split <;> simp <;> omega
  · simp_all [eq_comm]

end Symbol

namespace Word

private theorem openAfter?_concat (count : Nat) (word : Word) (symbol : Symbol) :
    openAfter? count (word ++ [symbol]) =
      (openAfter? count word).bind (Symbol.openAfter? · symbol) := by
  simp [openAfter?]

private theorem openAfter?_eq_some_iff {count final : Nat} {word : Word} :
    openAfter? count word = some final ↔
      (∀ part, part <+: word → part.count ']' ≤ count + part.count '[') ∧
        final + word.count ']' = count + word.count '[' := by
  induction word using List.reverseRecOn generalizing final with
  | nil => simp [openAfter?, eq_comm]
  | append_singleton word symbol induction =>
      simp only [openAfter?_concat, Option.bind_eq_some_iff, induction,
        Symbol.openAfter?_eq_some_iff, List.prefix_concat_iff, List.count_append]
      constructor
      · rintro ⟨between, ⟨inside, reached⟩, last⟩
        refine ⟨?_, by omega⟩
        rintro part (rfl | shorter)
        · simp only [List.count_append]
          omega
        · exact inside part shorter
      · rintro ⟨inside, reached⟩
        have whole := inside word (.inr List.prefix_rfl)
        refine ⟨count + word.count '[' - word.count ']', ⟨?_, by omega⟩, by omega⟩
        intro part shorter
        exact inside part (.inr shorter)

/-- In a balanced word every number of open brackets is the same before and after it. -/
theorem Balanced.openAfter? {word : Word} (balanced : word.Balanced) (count : Nat) :
    word.openAfter? count = some count := by
  refine openAfter?_eq_some_iff.mpr ⟨?_, by rw [balanced.closed]⟩
  intro part shorter
  have opened := balanced.opened part shorter
  omega

theorem balanced_iff {word : Word} : word.Balanced ↔ Word.openAfter? 0 word = some 0 := by
  constructor
  · intro balanced
    exact balanced.openAfter? 0
  · intro reached
    obtain ⟨opened, closed⟩ := openAfter?_eq_some_iff.mp reached
    exact ⟨by simpa using opened, by simpa using closed⟩

instance (word : Word) : Decidable word.Balanced :=
  decidable_of_iff (Word.openAfter? 0 word = some 0) balanced_iff.symm

end Word

/-! ## Expansion -/

/-- A table that rewrites no bracket and whose replacements are balanced. -/
structure Rules.KeepsBrackets (rules : Rules) : Prop where
  opening : rules.alternatives '[' = []
  closing : rules.alternatives ']' = []
  replacements : ∀ entry ∈ rules.entries, ∀ production ∈ entry.2, production.replacement.Balanced

namespace Rules.KeepsBrackets

variable {rules : Rules} (keeps : rules.KeepsBrackets)

include keeps

/-- What replaces a symbol opens and closes as many brackets as the symbol. -/
theorem openAfter?_image {symbol : Symbol} {image : Word} (replaces : rules.Replaces symbol image)
    (count : Nat) : image.openAfter? count = symbol.openAfter? count := by
  cases replaces with
  | terminal => simp [Word.openAfter?]
  | production member =>
      obtain ⟨entry, inside, rfl, listed⟩ := mem_entries_of_mem_alternatives member
      have opening : entry.1 ≠ '[' := by
        intro same
        simp [same, keeps.opening] at member
      have closing : entry.1 ≠ ']' := by
        intro same
        simp [same, keeps.closing] at member
      rw [(keeps.replacements entry inside _ listed).openAfter?]
      simp [Symbol.openAfter?]

private theorem openAfter?_flatten {word : Word} {images : List Word}
    (exchanged : List.Forall₂ rules.Replaces word images) (count : Nat) :
    Word.openAfter? count images.flatten = word.openAfter? count := by
  induction exchanged generalizing count with
  | nil => rfl
  | @cons symbol image word images replaces rest induction =>
      have first := keeps.openAfter?_image replaces count
      simp only [Word.openAfter?, List.flatten_cons, List.foldlM_append, List.foldlM_cons] at *
      rw [first]
      congr 1
      funext between
      exact induction between

private theorem balanced_expand {start : Word} (balanced : start.Balanced) {σ : Type} [Generator σ]
    (passes : Nat) (stream : σ) : (rules.expand start passes stream).1.Balanced := by
  refine holds_expand Word.Balanced ?_ balanced passes stream
  intro word images before exchanged
  rw [Word.balanced_iff, keeps.openAfter?_flatten exchanged]
  exact before.openAfter? 0

end Rules.KeepsBrackets

/-! ## The saved cursors of a turtle -/

namespace Turtle

variable {α σ : Type}

/-- The cursors that a drawing has saved after one more symbol. -/
def Drawing.savedAfter (drawing : Drawing α) (symbol : Symbol) : List (Cursor α) :=
  match symbol with
  | '[' => drawing.cursor :: drawing.saved
  | ']' => drawing.saved.tail
  | _ => drawing.saved

theorem Drawing.length_savedAfter (drawing : Drawing α) {symbol : Symbol} {count : Nat}
    (opened : symbol.openAfter? drawing.saved.length = some count) :
    (drawing.savedAfter symbol).length = count := by
  unfold Drawing.savedAfter
  split
  · simpa [Symbol.openAfter?] using opened
  · have closed := Symbol.openAfter?_eq_some_iff.mp opened
    simp at closed ⊢
    omega
  · simpa [Symbol.openAfter?] using opened

variable [Scalar α] [Generator σ]

theorem saved_step {params : Params α} {base : Vec3 α} {drawing next : Drawing α}
    {symbol : Symbol} {stream rest : σ}
    (run : step params base drawing symbol stream = .ok (next, rest)) :
    next.saved = drawing.savedAfter symbol := by
  unfold step at run
  split at run
  · dsimp only at run
    split at run
    · obtain ⟨placement, rfl⟩ := growLeaf_eq_ok run
      rfl
    · cases Sampling.pure_eq_ok_iff.mp run
      rfl
  · cases Sampling.pure_eq_ok_iff.mp run
    rfl
  · obtain ⟨twist, rfl⟩ := turn_eq_ok run
    rfl
  · obtain ⟨twist, rfl⟩ := turn_eq_ok run
    rfl
  · cases Sampling.pure_eq_ok_iff.mp run
    rfl
  · cases Sampling.pure_eq_ok_iff.mp run
    unfold Drawing.restore
    split
    · rename_i nothing
      simp [Drawing.savedAfter, nothing]
    · rename_i found
      simp [Drawing.savedAfter, found]
  · cases Sampling.pure_eq_ok_iff.mp run
    rfl
  · obtain ⟨placement, rfl⟩ := growLeaf_eq_ok run
    rfl
  · cases Sampling.pure_eq_ok_iff.mp run
    simp_all [Drawing.savedAfter]

/-- A turtle has saved a cursor for every open bracket. -/
theorem saved_drawWord {params : Params α} {base : Vec3 α} {word : Word} {drawing : Drawing α}
    {stream rest : σ} {count : Nat} (run : drawWord params base word stream = .ok (drawing, rest))
    (opened : word.openAfter? 0 = some count) : drawing.saved.length = count := by
  induction word using List.reverseRecOn generalizing drawing rest count with
  | nil =>
      cases Sampling.pure_eq_ok_iff.mp run
      exact Option.some.inj opened
  | append_singleton word symbol induction =>
      obtain ⟨before, between, began, stepped⟩ := drawWord_concat_eq_ok run
      rw [Word.openAfter?_concat, Option.bind_eq_some_iff] at opened
      obtain ⟨earlier, reached, last⟩ := opened
      rw [saved_step stepped]
      exact before.length_savedAfter (induction began reached ▸ last)

/-- However a turtle walks a word, it goes back only to cursors that it has saved, and it has gone
back to all of them in the end. -/
structure Returns (params : Params α) (base : Vec3 α) (word : Word) (stream : σ) : Prop where
  found : ∀ before after drawing rest, word = before ++ ']' :: after →
    drawWord params base before stream = .ok (drawing, rest) → drawing.saved ≠ []
  ended : ∀ drawing rest, drawWord params base word stream = .ok (drawing, rest) →
    drawing.saved = []

private theorem returns_of_balanced {word : Word} (balanced : word.Balanced) (params : Params α)
    (base : Vec3 α) (stream : σ) : Returns params base word stream where
  found before after drawing rest split run := by
    -- The part that ends with this bracket closes no more than it opens, so the part before it has
    -- left one open.
    have closing := balanced.opened (before ++ [']']) ⟨after, by simp [split]⟩
    have opened : before.openAfter? 0 = some (before.count '[' - before.count ']') := by
      refine Word.openAfter?_eq_some_iff.mpr ⟨?_, ?_⟩
      · intro part shorter
        have inside := balanced.opened part (shorter.trans ⟨_, split.symm⟩)
        omega
      · simp at closing
        omega
    intro nothing
    have count := saved_drawWord run opened
    simp [nothing] at closing count
    omega
  ended drawing rest run :=
    List.eq_nil_of_length_eq_zero (saved_drawWord run (balanced.openAfter? 0))

end Turtle

/-- A balanced start, expanded by a table that keeps brackets, is a balanced word, and a turtle
that walks it returns to every cursor that it saves. -/
theorem Rules.returns_of_expand {α σ τ : Type} [Scalar α] [Generator σ] [Generator τ]
    {rules : Rules} (keeps : rules.KeepsBrackets) {start : Word} (balanced : start.Balanced)
    (passes : Nat) (stream : σ) :
    (rules.expand start passes stream).1.Balanced ∧
      ∀ (params : Turtle.Params α) (base : Vec3 α) (later : τ),
        Turtle.Returns params base (rules.expand start passes stream).1 later := by
  have word := keeps.balanced_expand balanced passes stream
  exact ⟨word, fun params base later => Turtle.returns_of_balanced word params base later⟩

/-- A species whose segments fork without a turn. -/
def Species.fork : Species Float32 :=
  { (Species.broadleaf : Species Float32) with
    startWord := ['F'], rules := .ofList [('F', ⟨1, "F[F]".toList⟩)] }

theorem Rules.returns_of_expand_fork :
    Species.fork.rules.KeepsBrackets ∧ Word.Balanced Species.fork.startWord ∧
      ∃ word drawing rest,
        (Species.fork.rules.expand Species.fork.startWord 2 (⟨#[1, 2, 3], 0⟩ : Cycle)).1 = word ∧
          word = "F[F][F[F]]".toList ∧ word.Balanced ∧
          Turtle.drawWord Species.fork.drawingParams ⟨0, 0, 0⟩ word (⟨#[5], 0⟩ : Cycle) =
            .ok (drawing, rest) ∧ drawing.saved = [] := by
  have keeps : Species.fork.rules.KeepsBrackets := ⟨by decide, by decide, by decide⟩
  have start : Word.Balanced Species.fork.startWord := by decide
  obtain ⟨balanced, returns⟩ := returns_of_expand (α := Float32) (τ := Cycle) keeps start 2
    (⟨#[1, 2, 3], 0⟩ : Cycle)
  have drawn : (Turtle.drawWord Species.fork.drawingParams ⟨0, 0, 0⟩
      (Species.fork.rules.expand Species.fork.startWord 2 (⟨#[1, 2, 3], 0⟩ : Cycle)).1
        (⟨#[5], 0⟩ : Cycle)).toOption.any (fun _ => true) = true := by decide +kernel
  obtain ⟨⟨drawing, rest⟩, drawn, -⟩ := Except.exists_of_any drawn
  exact ⟨keeps, start, _, drawing, rest, rfl, by decide +kernel, balanced, drawn,
    (returns Species.fork.drawingParams ⟨0, 0, 0⟩ ⟨#[5], 0⟩).ended drawing rest drawn⟩

end Grove
