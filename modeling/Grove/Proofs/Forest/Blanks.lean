import Grove.Proofs.Grammar.Passes
import Grove.Proofs.Grammar.Text
import Grove.Proofs.Turtle.Pairs
import Grove.Viewer.Basic

/-!
# Blanks in words

A turtle does nothing at a blank, and where no entry is for a blank it is never replaced and takes
no random word. So a species may have blanks in its replacements or not: the same trees grow, from
the same random words. This is what makes it harmless that rule text loses blanks.

The two expansions are not compared with each other, but both with that of the table without any
blanks, whose words are theirs without the blanks.
-/

set_option autoImplicit false

namespace Grove

open Text

variable {α σ : Type} [Scalar α] [Generator σ]

/-- A word without its blanks. -/
def Word.dark (word : Word) : Word :=
  word.filter fun symbol => !isBlank symbol

def Production.dark (production : Production) : Production :=
  { production with replacement := production.replacement.dark }

/-- A table without the blanks of its replacements. -/
def Rules.dark (rules : Rules) : Rules where
  entries := rules.entries.map fun entry => (entry.1, entry.2.map Production.dark)
  sorted := List.pairwise_map.mpr rules.sorted

/-- No entry is for a blank. -/
def Rules.KeepsBlanks (rules : Rules) : Prop :=
  ∀ entry ∈ rules.entries, isBlank entry.1 = false

def Species.dark (species : Species α) : Species α :=
  { species with startWord := species.startWord.dark, rules := species.rules.dark }

namespace Word

private theorem dark_cons_of_blank {symbol : Symbol} (blank : isBlank symbol = true) (word : Word) :
    dark (symbol :: word) = dark word := by
  simp [dark, blank]

private theorem dark_cons_of_dark {symbol : Symbol} (proper : isBlank symbol = false)
    (word : Word) :
    dark (symbol :: word) = symbol :: dark word := by
  simp [dark, proper]

private theorem dark_append (first second : Word) :
    dark (first ++ second) = dark first ++ dark second :=
  List.filter_append first second

private theorem dark_eq_nil {word : Word} (blank : ∀ symbol ∈ word, isBlank symbol = true) :
    dark word = [] := by
  simpa [dark] using blank

private theorem dark_dropWhile (word : Word) : dark (word.dropWhile isBlank) = dark word := by
  conv_rhs => rw [← List.takeWhile_append_dropWhile (p := isBlank) (l := word)]
  rw [dark_append, dark_eq_nil fun _ => List.mem_takeWhile_imp, List.nil_append]

private theorem dark_reverse (word : Word) : dark word.reverse = (dark word).reverse :=
  List.filter_reverse ..

private theorem dark_trim (word : Word) : dark (trim word) = dark word := by
  rw [trim, trimEnd, dark_reverse, dark_dropWhile, dark_reverse, List.reverse_reverse, trimStart,
    dark_dropWhile]

end Word

/-! ## Expansions -/

namespace Rules

private theorem lookup_map (change : Production → Production) (symbol : Symbol)
    (entries : List (Symbol × List Production)) :
    (entries.map fun entry => (entry.1, entry.2.map change)).lookup symbol =
      (entries.lookup symbol).map (List.map change) := by
  induction entries with
  | nil => rfl
  | cons entry rest ih =>
      obtain ⟨key, productions⟩ := entry
      rw [List.map_cons, lookup_cons, lookup_cons, ih]
      split <;> rfl

private theorem get?_dark (rules : Rules) (symbol : Symbol) :
    rules.dark.get? symbol = (rules.get? symbol).map (List.map Production.dark) := by
  unfold get? dark
  rw [lookup_map]
  cases rules.entries.lookup symbol with
  | none => rfl
  | some productions => cases productions <;> rfl

private theorem chooseFrom_dark (target sum : Float32) (productions : List Production) :
    chooseFrom target sum (productions.map Production.dark) =
      (chooseFrom target sum productions).map Production.dark := by
  induction productions generalizing sum with
  | nil => rfl
  | cons production rest ih =>
      have split := apply_ite (Option.map Production.dark) (target ≤ sum + production.weight)
        (some production) (chooseFrom target (sum + production.weight) rest)
      rw [← ih] at split
      exact split.symm

private theorem choose_dark (productions : List Production) (target : Float32) :
    choose (productions.map Production.dark) target =
      (choose productions target).map Production.dark := by
  rw [choose, choose, chooseFrom_dark, List.getLast?_map, Option.map_or]

private theorem get?_of_blank {rules : Rules} (keeps : rules.KeepsBlanks) {symbol : Symbol}
    (blank : isBlank symbol = true) : rules.get? symbol = none := by
  rw [get?_eq_none_iff]
  refine List.eq_nil_iff_forall_not_mem.mpr fun production member => ?_
  obtain ⟨entry, place, rfl, -⟩ := mem_entries_of_mem_alternatives member
  rw [keeps entry place] at blank
  cases blank

private theorem replaceSymbol_dark (rules : Rules) {symbol : Symbol}
    (proper : isBlank symbol = false) :
    (rules.dark.replaceSymbol symbol : StateM σ Word) =
      Word.dark <$> rules.replaceSymbol symbol := by
  have alone : Word.dark [symbol] = [symbol] := Word.dark_cons_of_dark proper []
  unfold replaceSymbol
  rw [get?_dark]
  cases rules.get? symbol with
  | none => rw [Option.map_none, map_pure, alone]
  | some productions =>
      simp only [Option.map_some, drawProduction, bind_assoc, pure_bind, map_bind, choose_dark]
      refine bind_congr fun target => ?_
      cases choose productions target with
      | none => rw [Option.map_none, map_pure, alone]
      | some production => rfl

private theorem pass_cons (rules : Rules) (symbol : Symbol) (word : Word) :
    (rules.pass (symbol :: word) : StateM σ Word) = do
      let image ← rules.replaceSymbol symbol
      let images ← rules.pass word
      return image ++ images := by
  simp only [pass, List.mapM_cons, bind_assoc, pure_bind, List.flatten_cons]

private theorem pass_dark {rules : Rules} (keeps : rules.KeepsBlanks) (word : Word) :
    (rules.dark.pass word.dark : StateM σ Word) = Word.dark <$> rules.pass word := by
  induction word with
  | nil => rfl
  | cons symbol word ih =>
      cases blank : isBlank symbol with
      | true =>
          have kept : (rules.replaceSymbol symbol : StateM σ Word) = pure [symbol] := by
            rw [replaceSymbol, get?_of_blank keeps blank]
          rw [Word.dark_cons_of_blank blank, ih, pass_cons, kept, pure_bind, map_bind,
            map_eq_pure_bind]
          refine bind_congr fun images => ?_
          rw [map_pure, List.singleton_append, Word.dark_cons_of_blank blank]
      | false =>
          rw [Word.dark_cons_of_dark blank, pass_cons, pass_cons, ih, replaceSymbol_dark rules blank]
          simp only [map_eq_pure_bind, bind_assoc, pure_bind, Word.dark_append]

private theorem passes_dark {rules : Rules} (keeps : rules.KeepsBlanks) (passes : Nat)
    (word : Word) :
    (rules.dark.passes passes word.dark : StateM σ Word) =
      Word.dark <$> rules.passes passes word := by
  induction passes generalizing word with
  | zero => rfl
  | succ passes ih =>
      simp only [Rules.passes, pass_dark keeps, map_eq_pure_bind, bind_assoc, pure_bind] at ih ⊢
      exact bind_congr ih

theorem dark_of_trimmed {rules read : Rules}
    (trimmed : read.entries = rules.entries.map RuleText.trimmedEntry) : read.dark = rules.dark := by
  have dark_trimmed : ∀ production : Production, production.trimmed.dark = production.dark :=
    fun production => congrArg (Production.mk production.weight) (Word.dark_trim _)
  refine eq_of_entries ?_
  change read.entries.map _ = rules.entries.map _
  rw [trimmed, List.map_map]
  refine List.map_congr_left fun entry _ => congrArg (Prod.mk entry.1) ?_
  rw [RuleText.trimmedEntry, List.map_map]
  exact List.map_congr_left fun production _ => dark_trimmed production

/-- The words of a table without blanks are those of the table, without their blanks. -/
theorem expand_dark {rules : Rules} (keeps : rules.KeepsBlanks) (start : Word) (passes : Nat) :
    (rules.dark.expand start.dark passes : StateM σ Word) =
      Word.dark <$> rules.expand start passes := by
  rw [expand_eq_passes, expand_eq_passes, passes_dark keeps]

end Rules

/-! ## Trees -/

theorem Turtle.drawWord_dark (params : Turtle.Params α) (base : Vec3 α) (word : Word) :
    (drawWord params base word.dark : Sampling σ (Drawing α)) = drawWord params base word := by
  unfold drawWord
  generalize params.begin base = drawing
  induction word generalizing drawing with
  | nil => rfl
  | cons symbol word ih =>
      cases blank : isBlank symbol with
      | true =>
          have other : ∀ mark : Symbol, isBlank mark = false → symbol ≠ mark := by
            rintro mark proper rfl
            exact Bool.false_ne_true (proper.symm.trans blank)
          have strokes : Word.strokes.all (fun stroke => !isBlank stroke) = true := rfl
          have stroke : symbol ∉ Word.strokes := fun member =>
            other symbol (by simpa using List.all_eq_true.mp strokes symbol member) rfl
          have stays := step_of_not_stroke (σ := σ) stroke (other '[' (by decide))
            (other ']' (by decide)) params base drawing
          rw [Word.dark_cons_of_blank blank, List.foldlM_cons, stays, pure_bind]
          exact ih drawing
      | false =>
          rw [Word.dark_cons_of_dark blank, List.foldlM_cons, List.foldlM_cons]
          exact bind_congr ih

theorem Stand.plant_dark {species : Species α} (keeps : species.rules.KeepsBlanks) :
    (Stand.plant species.dark : Stand α → Vec3 α → Sampling σ (Stand α)) =
      Stand.plant species := by
  funext stand position
  have expanded : (species.dark.rules.expand species.dark.startWord species.dark.iterations :
      StateM σ Word) = Word.dark <$> species.rules.expand species.startWord species.iterations :=
    Rules.expand_dark keeps species.startWord species.iterations
  unfold Stand.plant
  rw [expanded, Sampling.lift_map, bind_map_left]
  refine bind_congr fun word => ?_
  rw [Turtle.drawWord_dark]
  rfl

/-- A configuration whose species has no blanks. -/
def Configuration.dark (config : Configuration α) : Configuration α :=
  { config with species := config.species.dark }

theorem Population.grow_dark {config : Configuration α} (keeps : config.species.rules.KeepsBlanks)
    (ground : Ground α) (renderer : Renderer α) :
    (grow config.dark ground renderer : Sampling σ (Population α × Renderer α)) =
      grow config ground renderer := by
  unfold grow plantAt
  rw [Configuration.dark, Stand.plant_dark keeps]

/-- Configurations that differ in blanks only have the same forest. -/
theorem Viewer.plant_congr {left right : Configuration α}
    (leftKeeps : left.species.rules.KeepsBlanks) (rightKeeps : right.species.rules.KeepsBlanks)
    (same : left.dark = right.dark) (entropy : ChaCha) :
    plant left entropy = plant right entropy := by
  have seed : left.planting.seed = right.planting.seed :=
    congrArg (·.planting.seed) same
  unfold plant
  rw [← Population.grow_dark leftKeeps, ← Population.grow_dark rightKeeps, same, seed]

end Grove
