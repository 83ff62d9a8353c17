import Grove.Proofs.Grammar.Expansion
import Grove.Proofs.Random.Counting
import Mathlib.Algebra.GroupWithZero.Nat
import Mathlib.Logic.Function.Iterate

/-!
# Passes one after the other

An expansion goes on where another one ended: the passes of both are the passes of one. Each symbol
that has productions takes one random word, and the others take none. Where no symbol has a choice,
the random words do not matter, and the parts of a word grow each for itself.
-/

set_option autoImplicit false

namespace Grove.Rules

variable {σ τ : Type} [Generator σ] [Generator τ]

/-! ## Passes without productions -/

private theorem alternatives_of_isEmpty {rules : Rules} (terminal : rules.isEmpty = true)
    (symbol : Symbol) : rules.alternatives symbol = [] := by
  unfold alternatives
  cases found : rules.entries.lookup symbol with
  | none => rfl
  | some productions =>
      obtain ⟨before, after, split, -⟩ := List.lookup_eq_some_iff.mp found
      have member : (symbol, productions) ∈ rules.entries := by simp [split]
      exact List.isEmpty_iff.mp (List.all_eq_true.mp terminal _ member)

private theorem pass_of_isEmpty {rules : Rules} (terminal : rules.isEmpty = true) (word : Word) :
    (rules.pass word : StateM σ Word) = pure word := by
  have kept : (rules.replaceSymbol : Symbol → StateM σ Word) = fun symbol => pure [symbol] := by
    funext symbol
    rw [replaceSymbol, get?_eq_none_iff.mpr (alternatives_of_isEmpty terminal symbol)]
  rw [pass, kept, List.mapM_pure, pure_bind, ← List.flatMap_def, List.flatMap_singleton']

/-- The way around a table of terminals is no more than a short cut. -/
theorem expand_eq_passes (rules : Rules) (start : Word) (passes : Nat) :
    (rules.expand start passes : StateM σ Word) = rules.passes passes start := by
  unfold expand
  split
  · rename_i terminal
    induction passes with
    | zero => rfl
    | succ passes ih => rw [Rules.passes, pass_of_isEmpty terminal, pure_bind, ← ih]
  · rfl

/-! ## Passes after passes -/

private theorem passes_add (rules : Rules) (first second : Nat) (word : Word) :
    (rules.passes (first + second) word : StateM σ Word) =
      rules.passes first word >>= rules.passes second := by
  induction first generalizing word with
  | zero => rw [Nat.zero_add, Rules.passes, pure_bind]
  | succ first ih =>
      have unfolded : (rules.passes (first + 1 + second) word : StateM σ Word) =
          rules.pass word >>= rules.passes (first + second) := by
        rw [Nat.add_right_comm, Rules.passes]
      rw [unfolded, Rules.passes, bind_assoc]
      exact bind_congr ih

theorem passes_succ (rules : Rules) (passes : Nat) (word : Word) :
    (rules.passes (passes + 1) word : StateM σ Word) = rules.passes passes word >>= rules.pass := by
  rw [passes_add]
  exact bind_congr fun between => bind_pure (rules.pass between)

/-! ## Draws -/

/-- Whether a symbol has productions. -/
def rewrites (rules : Rules) (symbol : Symbol) : Bool :=
  !(rules.alternatives symbol).isEmpty

/-- How many symbols have productions in the words before each pass. -/
def countRewritten (rules : Rules) (start : Word) (passes : Nat) (stream : σ) : Nat :=
  ((List.range passes).map fun done =>
    (rules.expand start done stream).1.countP rules.rewrites).sum

private theorem countsAs_replaceSymbol (rules : Rules) (symbol : Symbol) :
    CountsAs (rules.replaceSymbol symbol) (rules.replaceSymbol symbol : StateM σ Word)
      fun _ => if rules.rewrites symbol then 1 else 0 := by
  unfold replaceSymbol
  cases found : rules.get? symbol with
  | none =>
      have nothing : rules.rewrites symbol = false := by
        simp [rewrites, get?_eq_none_iff.mp found]
      simp only [nothing]
      exact .pure [symbol]
  | some productions =>
      obtain ⟨same, nonempty⟩ := get?_eq_some_iff.mp found
      have some : rules.rewrites symbol = true := by
        simp [rewrites, same, nonempty]
      simp only [some]
      have drawn : CountsAs (drawProduction productions)
          (drawProduction productions : StateM σ (Option Production)) fun _ => 1 :=
        (CountsAs.draw.bind_of_no_draw fun _ => .pure _).bind_of_no_draw fun _ => .pure _
      refine drawn.bind_of_no_draw fun chosen => ?_
      cases chosen with
      | none => exact .pure [symbol]
      | some production => exact .pure production.replacement

private theorem countsAs_pass (rules : Rules) (word : Word) :
    CountsAs (rules.pass word) (rules.pass word : StateM σ Word)
      fun _ => word.countP rules.rewrites := by
  have images : CountsAs (word.mapM rules.replaceSymbol)
      (word.mapM rules.replaceSymbol : StateM σ (List Word))
      fun _ => word.countP rules.rewrites := by
    induction word with
    | nil => exact .pure []
    | cons symbol word ih =>
        rw [List.mapM_cons, List.mapM_cons]
        refine ((rules.countsAs_replaceSymbol symbol).bind fun image =>
          ih.bind_of_no_draw fun images => .pure _).congr fun _ => ?_
        rw [List.countP_cons, Nat.add_comm]
  exact images.bind_of_no_draw fun _ => .pure _

private theorem countsAs_passes (rules : Rules) (passes : Nat) (word : Word) :
    CountsAs (rules.passes passes word) (rules.passes passes word : StateM σ Word)
      (rules.countRewritten word passes) := by
  induction passes with
  | zero => exact .pure word
  | succ passes ih =>
      rw [passes_succ, passes_succ]
      refine (ih.bind rules.countsAs_pass).congr fun stream => ?_
      unfold countRewritten
      rw [List.range_succ, List.map_append, List.sum_append, List.map_singleton,
        List.sum_singleton, expand_eq_passes]

/-! ## Words without a choice -/

/-- No symbol has more than one production. -/
def Deterministic (rules : Rules) : Prop :=
  ∀ entry ∈ rules.entries, entry.2.length ≤ 1

instance (rules : Rules) : Decidable rules.Deterministic :=
  inferInstanceAs (Decidable (∀ entry ∈ rules.entries, _))

/-- What a symbol becomes when there is no choice. -/
def image (rules : Rules) (symbol : Symbol) : Word :=
  ((rules.alternatives symbol).head?.map Production.replacement).getD [symbol]

namespace Deterministic

variable {rules : Rules} (deterministic : rules.Deterministic)

include deterministic

private theorem length_alternatives (symbol : Symbol) : (rules.alternatives symbol).length ≤ 1 := by
  unfold alternatives
  cases found : rules.entries.lookup symbol with
  | none => exact Nat.zero_le 1
  | some productions =>
      obtain ⟨before, after, split, -⟩ := List.lookup_eq_some_iff.mp found
      exact deterministic (symbol, productions) (by simp [split])

private theorem eq_image {symbol : Symbol} {word : Word} (replaces : rules.Replaces symbol word) :
    word = rules.image symbol := by
  unfold image
  cases replaces with
  | terminal nothing => rw [nothing]; rfl
  | production member =>
      obtain ⟨first, alone⟩ := List.length_eq_one_iff.mp (Nat.le_antisymm
        (deterministic.length_alternatives symbol) (List.length_pos_of_mem member))
      rw [alone] at member ⊢
      rw [List.mem_singleton.mp member]
      rfl

private theorem eq_map_image {word : Word} {images : List Word}
    (exchanged : List.Forall₂ rules.Replaces word images) : images = word.map rules.image := by
  induction exchanged with
  | nil => rfl
  | cons replaces rest ih => rw [deterministic.eq_image replaces, ih, List.map_cons]

private theorem pass_eq (word : Word) (stream : σ) :
    (rules.pass word stream).1 = word.flatMap rules.image := by
  have images := deterministic.eq_map_image (rules.replaces_mapM word stream)
  exact (congrArg List.flatten images).trans List.flatMap_def.symm

private theorem passes_eq (passes : Nat) (word : Word) (stream : σ) :
    (rules.passes passes word stream).1 = (List.flatMap rules.image)^[passes] word := by
  induction passes generalizing word stream with
  | zero => rfl
  | succ passes ih =>
      rw [Function.iterate_succ_apply, ← deterministic.pass_eq word stream]
      exact ih _ _

end Deterministic

private theorem iterate_flatMap_append (image : Symbol → Word) (passes : Nat)
    (before after : Word) :
    (List.flatMap image)^[passes] (before ++ after) =
      (List.flatMap image)^[passes] before ++ (List.flatMap image)^[passes] after := by
  induction passes generalizing before after with
  | zero => rfl
  | succ passes ih => simp only [Function.iterate_succ_apply, List.flatMap_append, ih]

/-- An expansion can be broken off and gone on with where its stream stands. It draws one random
word for each symbol that has productions, in the words before all of its passes. Where no symbol
has a choice, it does not depend on the stream, and the parts of a word are expanded by themselves. -/
theorem expands_in_steps (rules : Rules) :
    (∀ (start : Word) (first second : Nat),
      (rules.expand start (first + second) : StateM σ Word) =
        rules.expand start first >>= fun word => rules.expand word second) ∧
    (∀ (start : Word) (passes : Nat) (stream : σ),
      rules.expand start passes (⟨stream, 0⟩ : Counted σ) =
        ((rules.expand start passes stream).1, ⟨(rules.expand start passes stream).2,
          rules.countRewritten start passes stream⟩)) ∧
    (rules.Deterministic → ∀ (passes : Nat) (stream : σ),
      (∀ (start : Word) (other : τ),
        (rules.expand start passes stream).1 = (rules.expand start passes other).1) ∧
      ∀ before after : Word, (rules.expand (before ++ after) passes stream).1 =
        (rules.expand before passes stream).1 ++ (rules.expand after passes stream).1) := by
  simp only [expand_eq_passes]
  refine ⟨fun start first second => rules.passes_add first second start, ?_, ?_⟩
  · intro start passes stream
    have counts := rules.countsAs_passes passes start (⟨stream, 0⟩ : Counted σ)
    rwa [Nat.zero_add] at counts
  · intro deterministic passes stream
    refine ⟨fun start other => ?_, fun before after => ?_⟩
    · rw [deterministic.passes_eq, deterministic.passes_eq]
    · simp only [deterministic.passes_eq, iterate_flatMap_append]

/-- A plant of two kinds of shoots takes a word for each of them in every pass. -/
theorem expands_in_steps_shoots :
    let rules : Rules := .ofList [('F', ⟨1, "F[+X]".toList⟩), ('X', ⟨0.5, "XF".toList⟩)]
    let stream : Cycle := ⟨#[0, 0xffffffff], 0⟩
    rules.Deterministic ∧
      (rules.expand "FX".toList 2 stream).1 = "F[+X][+XF]XFF[+X]".toList ∧
      (rules.expand "FX".toList 2 stream).1 = (rules.expand ['F'] 2 stream).1 ++
        (rules.expand ['X'] 2 stream).1 ∧
      rules.expand "FX".toList 2 (⟨stream, 0⟩ : Counted Cycle) =
        ((rules.expand "FX".toList 2 stream).1, ⟨(rules.expand "FX".toList 2 stream).2, 6⟩) := by
  intro rules stream
  have deterministic : rules.Deterministic := by decide
  have counted : rules.countRewritten "FX".toList 2 stream = 6 := by decide +kernel
  obtain ⟨-, counts, parts⟩ := expands_in_steps (σ := Cycle) (τ := Cycle) rules
  refine ⟨deterministic, by decide +kernel, (parts deterministic 2 stream).2 ['F'] ['X'], ?_⟩
  rw [counts, counted]

end Grove.Rules
