import Mathlib.Data.List.Forall2
import Grove.Grammar.Expansion

/-!
# What words are replaced by

A pass puts a word in the place of every symbol: the replacement of one of its productions, or the
symbol itself if it has none. What such an exchange of all symbols keeps, the expansion keeps.
-/

set_option autoImplicit false

namespace Grove

private theorem mem_of_chooseFrom {target sum : Float32} {productions : List Production}
    {production : Production} (chosen : chooseFrom target sum productions = some production) :
    production ∈ productions := by
  induction productions generalizing sum with
  | nil => cases chosen
  | cons first rest induction =>
      simp only [chooseFrom] at chosen
      split at chosen
      · cases chosen
        exact List.mem_cons_self
      · exact List.mem_cons_of_mem first (induction chosen)

private theorem mem_of_choose {productions : List Production} {target : Float32}
    {production : Production} (chosen : choose productions target = some production) :
    production ∈ productions := by
  rcases Option.or_eq_some_iff.mp chosen with reached | ⟨-, last⟩
  · exact mem_of_chooseFrom reached
  · exact List.mem_of_getLast? last

private theorem choose_eq_none_iff {productions : List Production} {target : Float32} :
    choose productions target = none ↔ productions = [] := by
  constructor
  · intro chosen
    exact List.getLast?_eq_none_iff.mp (Option.or_eq_none_iff.mp chosen).2
  · rintro rfl
    rfl

namespace Rules

theorem get?_eq_some_iff {rules : Rules} {symbol : Symbol} {productions : List Production} :
    rules.get? symbol = some productions ↔
      rules.alternatives symbol = productions ∧ productions ≠ [] := by
  unfold get? alternatives
  cases rules.entries.lookup symbol with
  | none =>
      simp only [Option.filter_none, Option.getD_none]
      exact ⟨nofun, fun ⟨nothing, nonempty⟩ => absurd nothing.symm nonempty⟩
  | some found =>
      simp only [Option.filter_some, Option.getD_some]
      cases found <;> simp +contextual [eq_comm]

theorem get?_eq_none_iff {rules : Rules} {symbol : Symbol} :
    rules.get? symbol = none ↔ rules.alternatives symbol = [] := by
  constructor
  · intro terminal
    by_contra nonempty
    cases terminal.symm.trans (get?_eq_some_iff.mpr ⟨rfl, nonempty⟩)
  · intro nothing
    cases found : rules.get? symbol with
    | none => rfl
    | some productions =>
        obtain ⟨same, nonempty⟩ := get?_eq_some_iff.mp found
        exact absurd (same.symm.trans nothing) nonempty

theorem mem_entries_of_mem_alternatives {rules : Rules} {symbol : Symbol}
    {production : Production} (member : production ∈ rules.alternatives symbol) :
    ∃ entry ∈ rules.entries, entry.1 = symbol ∧ production ∈ entry.2 := by
  unfold alternatives at member
  cases found : rules.entries.lookup symbol with
  | none => simp [found] at member
  | some productions =>
      rw [found, Option.getD_some] at member
      obtain ⟨before, after, split, -⟩ := List.lookup_eq_some_iff.mp found
      exact ⟨(symbol, productions), by simp [split], rfl, member⟩

/-- The words that a pass can put in the place of a symbol. -/
inductive Replaces (rules : Rules) (symbol : Symbol) : Word → Prop
  | terminal (nothing : rules.alternatives symbol = []) : Replaces rules symbol [symbol]
  | production {production : Production} (member : production ∈ rules.alternatives symbol) :
      Replaces rules symbol production.replacement

variable {σ : Type} [Generator σ]

private theorem replaces_replaceSymbol (rules : Rules) (symbol : Symbol) (stream : σ) :
    rules.Replaces symbol (rules.replaceSymbol symbol stream).1 := by
  unfold replaceSymbol
  cases found : rules.get? symbol with
  | none => exact .terminal (get?_eq_none_iff.mp found)
  | some productions =>
      obtain ⟨rfl, nonempty⟩ := get?_eq_some_iff.mp found
      dsimp only [bind, StateT.bind]
      cases same : drawProduction (rules.alternatives symbol) stream with
      | mk drawn rest =>
          have chosen : choose (rules.alternatives symbol) (drawFraction stream).1 = drawn :=
            congrArg Prod.fst same
          cases drawn with
          | none => exact absurd (choose_eq_none_iff.mp chosen) nonempty
          | some production => exact .production (mem_of_choose chosen)

theorem replaces_mapM (rules : Rules) (word : Word) (stream : σ) :
    List.Forall₂ rules.Replaces word (word.mapM rules.replaceSymbol stream).1 := by
  induction word generalizing stream with
  | nil => exact .nil
  | cons symbol word induction =>
      rw [List.mapM_cons]
      exact .cons (rules.replaces_replaceSymbol symbol stream) (induction _)

section

variable {rules : Rules} (holds : Word → Prop)
  (exchanged : ∀ word images, holds word → List.Forall₂ rules.Replaces word images →
    holds images.flatten)

include exchanged

private theorem holds_passes (passes : Nat) {word : Word} (start : holds word) (stream : σ) :
    holds (rules.passes passes word stream).1 := by
  induction passes generalizing word stream with
  | zero => exact start
  | succ passes induction =>
      exact induction (exchanged word _ start (rules.replaces_mapM word stream)) _

/-- What holds of the start and is kept when every symbol is replaced holds of the expansion. -/
theorem holds_expand {start : Word} (holdsStart : holds start) (passes : Nat) (stream : σ) :
    holds (rules.expand start passes stream).1 := by
  unfold expand
  split
  · exact holdsStart
  · exact holds_passes holds exchanged passes holdsStart stream

end

end Rules

end Grove
