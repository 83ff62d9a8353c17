import Grove.Proofs.Grammar.Passes
import Grove.Proofs.Random.Fraction
import Grove.Proofs.Single.Sum

/-!
# Weights and draws

The production that a draw chooses is the first at which the running sum of the weights reaches the
draw. A weight of zero does not raise the sum, so what the sum had not reached before is not reached
there either. Only a draw of zero is reached before any weight is added: it chooses the first
production, even one without weight.
-/

set_option autoImplicit false

namespace Grove

open Single

/-- The running sum of the weights after all productions. -/
def weightSum (sum : Float32) (productions : List Production) : Float32 :=
  productions.foldl (fun sum production => sum + production.weight) sum

/-- Finite weights that are not below zero, and whose running sum reaches one. -/
structure Weighted (productions : List Production) : Prop where
  proper : ∀ production ∈ productions,
    production.weight.isFinite = true ∧ ¬production.weight < 0
  reaches : ∃ part, part <+: productions ∧ 1 ≤ weightSum 0 part

/-- A draw of zero chooses the first production, whatever its weight, and every other draw one
whose weight is not zero. -/
structure ByWeight (productions : List Production) (target : Float32)
    (production : Production) : Prop where
  first : (target == 0) = true → productions.head? = some production
  weighted : (target == 0) = false → (production.weight == 0) = false

/-! ## Running sums -/

section Sums

variable {target sum : Float32} {productions : List Production}

/-- As long as a sum has not reached a target, the next sum is a number and not below zero. -/
theorem next_sum {weight : Float32} (fraction : Fraction target) (number : sum.isNaN = false)
    (nonneg : 0 ≤ place sum) (above : ¬target ≤ sum)
    (proper : weight.isFinite = true ∧ ¬weight < 0) :
    (sum + weight).isNaN = false ∧ 0 ≤ place (sum + weight) := by
  have targetNumber := isFinite_iff_place.mp fraction.finite
  have weightNumber := (isFinite_iff_place.mp proper.1).1
  have low : place sum < place target := by
    by_contra high
    exact above (le_iff.mpr ⟨targetNumber.1, number, not_lt.mp high⟩)
  have finite : sum.isFinite = true := by
    refine isFinite_iff_place.mpr ⟨number, ?_, low.trans targetNumber.2.2⟩
    exact lt_of_lt_of_le (by decide) nonneg
  have raised := le_place_add finite nonneg weightNumber
    ((not_lt_zero_iff weightNumber).mp proper.2)
  exact ⟨add_isNaN finite weightNumber, nonneg.trans raised⟩

/-- A weight of zero reaches nothing that was not reached before. -/
theorem not_le_add_of_zero {weight : Float32} (number : sum.isNaN = false)
    (above : ¬target ≤ sum) (zero : (weight == 0) = true) : ¬target ≤ sum + weight := by
  obtain ⟨weightNumber, -, stands⟩ := beq_iff.mp zero
  intro reached
  obtain ⟨targetNumber, -, below⟩ := le_iff.mp reached
  rw [place_add_of_zero number weightNumber (stands.trans place_zero)] at below
  exact above (le_iff.mpr ⟨targetNumber, number, below⟩)

private theorem weight_of_chooseFrom (fraction : Fraction target)
    (proper : ∀ production ∈ productions,
      production.weight.isFinite = true ∧ ¬production.weight < 0)
    (number : sum.isNaN = false) (nonneg : 0 ≤ place sum) (above : ¬target ≤ sum)
    {production : Production} (chosen : chooseFrom target sum productions = some production) :
    (production.weight == 0) = false := by
  induction productions generalizing sum with
  | nil => cases chosen
  | cons first rest ih =>
      obtain ⟨firstProper, proper⟩ := List.forall_mem_cons.mp proper
      rw [chooseFrom] at chosen
      split at chosen
      · rename_i reached
        obtain rfl := Option.some.inj chosen
        cases zero : first.weight == 0 with
        | false => rfl
        | true => exact absurd reached (not_le_add_of_zero number above zero)
      · rename_i notReached
        obtain ⟨number, nonneg⟩ := next_sum fraction number nonneg above firstProper
        exact ih proper number nonneg notReached chosen

/-- Where nothing is chosen, no running sum reaches the target. -/
theorem not_le_of_chooseFrom (nothing : chooseFrom target sum productions = none)
    (above : ¬target ≤ sum) {part : List Production} (shorter : part <+: productions) :
    ¬target ≤ weightSum sum part := by
  induction productions generalizing sum part with
  | nil =>
      obtain rfl := List.prefix_nil.mp shorter
      exact above
  | cons first rest ih =>
      rw [chooseFrom] at nothing
      split at nothing
      · cases nothing
      · rename_i notReached
        cases part with
        | nil => exact above
        | cons head part =>
            obtain ⟨same, shorter⟩ := List.cons_prefix_cons.mp shorter
            rw [weightSum, List.foldl_cons, same]
            exact ih nothing notReached shorter

end Sums

/-! ## Choices -/

theorem Weighted.exists_cons {productions : List Production} (weighted : Weighted productions) :
    ∃ first rest, productions = first :: rest := by
  obtain ⟨part, shorter, reached⟩ := weighted.reaches
  cases productions with
  | nil =>
      rw [List.prefix_nil.mp shorter] at reached
      exact absurd reached (by decide)
  | cons first rest => exact ⟨first, rest, rfl⟩

/-- A draw of zero is reached by the first weight. -/
theorem choose_of_zero {productions : List Production} (weighted : Weighted productions)
    {target : Float32} (zero : (target == 0) = true) :
    ∃ production, choose productions target = some production ∧
      productions.head? = some production := by
  obtain ⟨first, rest, rfl⟩ := weighted.exists_cons
  obtain ⟨finite, notNegative⟩ := weighted.proper first List.mem_cons_self
  have weightNumber := (isFinite_iff_place.mp finite).1
  obtain ⟨number, -, stands⟩ := beq_iff.mp zero
  have sum := le_place_add (by decide : (0 : Float32).isFinite = true) place_zero.ge weightNumber
    ((not_lt_zero_iff weightNumber).mp notNegative)
  have reached : target ≤ 0 + first.weight :=
    le_iff.mpr ⟨number, add_isNaN (by decide) weightNumber, stands.trans_le sum⟩
  refine ⟨first, ?_, rfl⟩
  rw [choose, chooseFrom, if_pos reached]
  rfl

/-- Any other draw is not reached before the first weight that is not zero. -/
theorem choose_of_not_zero {productions : List Production} (weighted : Weighted productions)
    {target : Float32} (fraction : Fraction target) (nonzero : (target == 0) = false) :
    ∃ production, choose productions target = some production ∧
      (production.weight == 0) = false := by
  have number := (isFinite_iff_place.mp fraction.finite).1
  have above : ¬target ≤ 0 := by
    intro below
    have stands : place target = place 0 :=
      le_antisymm (le_iff.mp below).2.2
        (place_zero.trans_le (place_nonneg fraction.finite fraction.least))
    rw [beq_iff.mpr ⟨number, zero_isNaN, stands⟩] at nonzero
    cases nonzero
  cases chosen : chooseFrom target 0 productions with
  | some production =>
      refine ⟨production, by rw [choose, chosen]; rfl, ?_⟩
      exact weight_of_chooseFrom fraction weighted.proper zero_isNaN place_zero.ge above chosen
  | none =>
      obtain ⟨part, shorter, reached⟩ := weighted.reaches
      obtain ⟨-, sumNumber, one⟩ := le_iff.mp reached
      have below : target ≤ weightSum 0 part :=
        le_iff.mpr ⟨number, sumNumber, fraction.place_lt.le.trans one⟩
      exact absurd below (not_le_of_chooseFrom chosen above shorter)

private theorem byWeight_of_choose {productions : List Production} (weighted : Weighted productions)
    {target : Float32} (fraction : Fraction target) :
    ∃ production, choose productions target = some production ∧
      ByWeight productions target production := by
  cases zero : target == 0 with
  | true =>
      obtain ⟨production, chosen, first⟩ := choose_of_zero weighted zero
      exact ⟨production, chosen, fun _ => first, fun nonzero => (by simp [zero] at nonzero)⟩
  | false =>
      obtain ⟨production, chosen, some⟩ := choose_of_not_zero weighted fraction zero
      exact ⟨production, chosen, fun isZero => (by simp [zero] at isZero), fun _ => some⟩

/-! ## Expansions -/

namespace Rules

variable {σ : Type} [Generator σ]

/-- The symbols of a word, each with the stream from which a pass replaces it. -/
def turns (rules : Rules) : Word → σ → List (Symbol × σ)
  | [], _ => []
  | symbol :: word, stream =>
      (symbol, stream) :: rules.turns word (rules.replaceSymbol symbol stream).2

/-- What a pass puts in the place of a symbol when its turn comes. -/
def putAt (rules : Rules) (turn : Symbol × σ) : Word :=
  (rules.replaceSymbol turn.1 turn.2).1

private theorem pass_eq_flatMap (rules : Rules) (word : Word) (stream : σ) :
    (rules.pass word stream).1 = (rules.turns word stream).flatMap rules.putAt := by
  have images : (word.mapM rules.replaceSymbol stream).1 =
      (rules.turns word stream).map rules.putAt := by
    induction word generalizing stream with
    | nil => rfl
    | cons symbol word ih =>
        rw [List.mapM_cons, turns, List.map_cons, ← ih]
        rfl
  exact (congrArg List.flatten images).trans List.flatMap_def.symm

/-- What comes in the place of a symbol is what its draw chooses. -/
theorem putAt_of_chosen {rules : Rules} {turn : Symbol × σ} {production : Production}
    (chosen : choose (rules.alternatives turn.1) (drawFraction turn.2).1 = some production) :
    rules.putAt turn = production.replacement := by
  have nonempty : rules.alternatives turn.1 ≠ [] := by
    intro nothing
    rw [nothing] at chosen
    cases chosen
  have found := get?_eq_some_iff.mpr ⟨rfl, nonempty⟩
  have drawn : (drawProduction (rules.alternatives turn.1) turn.2).1 = some production := chosen
  unfold putAt replaceSymbol
  rw [found]
  dsimp only [bind, StateT.bind]
  cases same : drawProduction (rules.alternatives turn.1) turn.2 with
  | mk result rest =>
      rw [same] at drawn
      cases drawn
      rfl

/-- A production without weight is chosen only if it is the first one and the draw is zero, provided
that the weights come to at least one. So a pass puts such a production in the place of a symbol only
when its draw is zero. -/
theorem byWeight_of_expand (rules : Rules) (start : Word) (done : Nat) (stream : σ) :
    (∀ productions, Weighted productions → ∀ moment : σ,
      ∃ production, (drawProduction productions moment).1 = some production ∧
        ByWeight productions (drawFraction moment).1 production) ∧
    let reached := rules.expand start done stream
    let turns := rules.turns reached.1 reached.2
    (rules.expand start (done + 1) stream).1 = turns.flatMap rules.putAt ∧
      ∀ turn ∈ turns, Weighted (rules.alternatives turn.1) →
        ∃ production, (drawProduction (rules.alternatives turn.1) turn.2).1 = some production ∧
          rules.putAt turn = production.replacement ∧
          ByWeight (rules.alternatives turn.1) (drawFraction turn.2).1 production := by
  refine ⟨fun productions weighted moment => ?_, ?_, fun turn _ weighted => ?_⟩
  · exact byWeight_of_choose weighted (fraction_drawFraction moment)
  · rw [expand_eq_passes, expand_eq_passes, passes_succ, ← pass_eq_flatMap]
    rfl
  · obtain ⟨production, chosen, byWeight⟩ :=
      byWeight_of_choose weighted (fraction_drawFraction turn.2)
    exact ⟨production, chosen, putAt_of_chosen chosen, byWeight⟩

/-- The draw of a half stands on the first sum that is not zero, and the next one above it. Neither
chooses what has no weight. -/
theorem byWeight_of_expand_withered :
    let productions : List Production := [⟨0, ['X']⟩, ⟨0.5, "FF".toList⟩, ⟨0, ['Y']⟩, ⟨0.5, ['F']⟩]
    let rules : Rules := .ofList (productions.map fun production => ('F', production))
    let stream : Cycle := ⟨#[0x80000000, 0x80000100], 0⟩
    Weighted productions ∧
      (∃ production, (drawProduction productions stream).1 = some production ∧
        ByWeight productions (drawFraction stream).1 production) ∧
      (rules.expand ['F'] 2 stream).1 = "FFF".toList ∧
      ∀ turn ∈ rules.turns "FF".toList (rules.expand ['F'] 1 stream).2,
        Weighted (rules.alternatives turn.1) ∧ ∃ production : Production,
          rules.putAt turn = production.replacement ∧ (production.weight == 0) = false := by
  intro productions rules stream
  have weighted : Weighted productions :=
    ⟨by decide +kernel, productions, List.prefix_rfl, by decide +kernel⟩
  have reached : (rules.expand ['F'] 1 stream).1 = "FF".toList := by decide +kernel
  have turned : ∀ turn ∈ rules.turns "FF".toList (rules.expand ['F'] 1 stream).2,
      turn.1 = 'F' ∧ ((drawFraction turn.2).1 == 0) = false := by decide +kernel
  obtain ⟨chooses, -, put⟩ := byWeight_of_expand rules ['F'] 1 stream
  refine ⟨weighted, chooses productions weighted stream, by decide +kernel, ?_⟩
  intro turn member
  obtain ⟨symbol, nonzero⟩ := turned turn member
  have same : rules.alternatives turn.1 = productions := by rw [symbol]; rfl
  rw [reached] at put
  have byWeight := put turn member
  rw [same] at byWeight ⊢
  obtain ⟨production, -, placed, byWeight⟩ := byWeight weighted
  exact ⟨weighted, production, placed, byWeight.weighted nonzero⟩

/-- A draw of zero chooses a first production without weight, and an expansion applies it. -/
theorem weightless_chosen :
    let productions : List Production := [⟨0, ['X']⟩, ⟨1, ['Y']⟩]
    let rules : Rules := .ofList (productions.map fun production => ('F', production))
    let stream : Cycle := ⟨#[0], 0⟩
    Weighted productions ∧
      (drawProduction productions stream).1 = some ⟨0, ['X']⟩ ∧
      ((⟨0, ['X']⟩ : Production).weight == 0) = true ∧
      rules.alternatives 'F' = productions ∧
      (rules.expand ['F'] 1 stream).1 = ['X'] := by
  intro productions rules stream
  have weighted : Weighted productions :=
    ⟨by decide +kernel, productions, List.prefix_rfl, by decide +kernel⟩
  obtain ⟨production, chosen, first⟩ := choose_of_zero weighted
    (by decide +kernel : ((drawFraction stream).1 == 0) = true)
  obtain rfl := Option.some.inj first
  exact ⟨weighted, chosen, by decide +kernel, rfl, by decide +kernel⟩

end Rules

end Grove
