import Grove.Proofs.Config.Validity
import Grove.Proofs.Single.Arithmetic
import Grove.Viewer.Panel

/-!
# Settings within their ranges

Showing the panel limits every number of a configuration to the range of its box. What is in range
stays as it is, what has been limited is in range, and a valid configuration stays valid.
-/

set_option autoImplicit false

namespace Grove

/-- Every number of the panel is one that its box takes. -/
structure Configuration.InRange (config : Configuration Float32) : Prop where
  counts : ∀ box ∈ CountBox.all, box.get config ≤ box.highest
  measures : ∀ box ∈ MeasureBox.all,
    box.range.1 ≤ box.get config ∧ box.get config ≤ box.range.2

instance (config : Configuration Float32) : Decidable config.InRange :=
  decidable_of_iff
    ((∀ box ∈ CountBox.all, box.get config ≤ box.highest) ∧
      ∀ box ∈ MeasureBox.all, box.range.1 ≤ box.get config ∧ box.get config ≤ box.range.2)
    ⟨fun both => ⟨both.1, both.2⟩, fun inRange => ⟨inRange.counts, inRange.measures⟩⟩

section

variable {α : Type} [Scalar α]

/-! ## What the boxes make of their numbers -/

/-- The number that a box makes of the one it finds. -/
def MeasureBox.settled (box : MeasureBox) (value : α) : α :=
  if value == box.limit value then value else box.limit value

omit [Scalar α] in
theorem MeasureBox.set_get (config : Configuration α) (box : MeasureBox) :
    box.set config (box.get config) = config := by
  cases box <;> rfl

theorem MeasureBox.settle_eq_set (config : Configuration α) (box : MeasureBox) :
    box.settle config = box.set config (box.settled (box.get config)) := by
  unfold settle settled
  dsimp only
  split
  · exact (box.set_get config).symm
  · rfl

theorem Configuration.settle_eq_sets (config : Configuration α) :
    config.settle = MeasureBox.all.foldl
      (fun config box => box.set config (box.settled (box.get config)))
      (CountBox.all.foldl CountBox.settle config) := by
  have steps : (MeasureBox.settle : Configuration α → MeasureBox → Configuration α) =
      fun config box => box.set config (box.settled (box.get config)) :=
    funext fun config => funext fun box => box.settle_eq_set config
  rw [Configuration.settle, steps]

omit [Scalar α] in
theorem MeasureBox.get_set_of_ne {box other : MeasureBox} (distinct : box ≠ other)
    (config : Configuration α) (value : α) : box.get (other.set config value) = box.get config := by
  cases box <;> cases other <;> first | rfl | exact absurd rfl distinct

omit [Scalar α] in
private theorem foldl_kept {β γ : Type} (observe : Configuration α → β)
    {step : Configuration α → γ → Configuration α}
    (kept : ∀ config item, observe (step config item) = observe config) (items : List γ)
    (config : Configuration α) : observe (items.foldl step config) = observe config := by
  induction items generalizing config with
  | nil => rfl
  | cons item items ih => exact (ih _).trans (kept config item)

/-- Boxes that are shown one after the other do not disturb each other. -/
theorem MeasureBox.get_foldl {boxes : List MeasureBox} (distinct : boxes.Nodup)
    (config : Configuration α) (box : MeasureBox) :
    box.get (boxes.foldl (fun config box => box.set config (box.settled (box.get config))) config) =
      if box ∈ boxes then box.settled (box.get config) else box.get config := by
  induction boxes generalizing config with
  | nil => rfl
  | cons first rest ih =>
      obtain ⟨absent, distinct⟩ := List.nodup_cons.mp distinct
      rw [List.foldl_cons, ih distinct]
      by_cases same : box = first
      · subst same
        have own : box.get (box.set config (box.settled (box.get config))) =
            box.settled (box.get config) := by
          cases box <;> rfl
        rw [if_neg absent, if_pos List.mem_cons_self, own]
      · simp only [MeasureBox.get_set_of_ne same, List.mem_cons, same, false_or]

theorem MeasureBox.get_settle (config : Configuration α) (box : MeasureBox) :
    box.get config.settle = box.settled (box.get config) := by
  have listed : box ∈ all := by cases box <;> decide
  have kept : ∀ (config : Configuration α) (other : CountBox),
      box.get (other.settle config) = box.get config := by
    intro config other
    cases box <;> cases other <;> rfl
  have counts := foldl_kept box.get kept CountBox.all config
  rw [config.settle_eq_sets, MeasureBox.get_foldl (by decide), if_pos listed, counts]

theorem CountBox.get_settle (config : Configuration α) (box : CountBox) :
    box.get config.settle = min (box.get config) box.highest := by
  have kept : ∀ (config : Configuration α) (other : MeasureBox),
      box.get (other.set config (other.settled (other.get config))) = box.get config := by
    intro config other
    cases box <;> cases other <;> rfl
  rw [config.settle_eq_sets, foldl_kept box.get kept]
  cases box <;> rfl

/-- What no box changes is as it was when the panel has been shown. -/
theorem Configuration.settle_kept {β : Type} (observe : Configuration α → β)
    (counts : ∀ config value (box : CountBox), observe (box.set config value) = observe config)
    (measures : ∀ config value (box : MeasureBox),
      observe (box.set config value) = observe config) (config : Configuration α) :
    observe config.settle = observe config := by
  rw [config.settle_eq_sets]
  exact (foldl_kept observe (fun config box => measures config _ box) _ _).trans
    (foldl_kept observe (fun config box => counts config _ box) _ _)

theorem Configuration.settle_seed (config : Configuration α) :
    config.settle.planting.seed = config.planting.seed :=
  settle_kept (·.planting.seed) (fun _ _ box => by cases box <;> rfl)
    (fun _ _ box => by cases box <;> rfl) config

theorem Configuration.settle_rules (config : Configuration α) :
    config.settle.species.rules = config.species.rules :=
  settle_kept (·.species.rules) (fun _ _ box => by cases box <;> rfl)
    (fun _ _ box => by cases box <;> rfl) config

theorem Configuration.settle_maxStep (config : Configuration α) :
    config.settle.felling.maxStep = config.felling.maxStep :=
  settle_kept (·.felling.maxStep) (fun _ _ box => by cases box <;> rfl)
    (fun _ _ box => by cases box <;> rfl) config

end

open Single

/-! ## Ranges -/

theorem MeasureBox.range_place (box : MeasureBox) :
    (box.range : Float32 × Float32).1.isFinite = true ∧
      (box.range : Float32 × Float32).2.isFinite = true ∧
      0 ≤ place (box.range : Float32 × Float32).1 ∧ 0 < place (box.range : Float32 × Float32).2 ∧
      place (box.range : Float32 × Float32).1 ≤ place (box.range : Float32 × Float32).2 := by
  cases box <;> decide +kernel

theorem MeasureBox.settled_place (box : MeasureBox) {value : Float32}
    (number : value.isNaN = false) :
    (box.settled value).isNaN = false ∧ place (box.settled value) =
      max (place (box.range : Float32 × Float32).1)
        (min (place value) (place (box.range : Float32 × Float32).2)) := by
  obtain ⟨lowFinite, highFinite, -, -, ordered⟩ := box.range_place
  have limited := clampTotal_place number (isFinite_iff_place.mp lowFinite).1
    (isFinite_iff_place.mp highFinite).1 ordered
  unfold settled
  split
  · rename_i same
    exact ⟨number, (beq_iff.mp same).2.2.trans limited.2⟩
  · exact limited

theorem MeasureBox.settled_finite (box : MeasureBox) {value : Float32}
    (finite : value.isFinite = true) : (box.settled value).isFinite = true := by
  obtain ⟨lowFinite, highFinite, -, -, ordered⟩ := box.range_place
  obtain ⟨number, placed⟩ := box.settled_place (isFinite_iff_place.mp finite).1
  have low := isFinite_iff_place.mp lowFinite
  have high := isFinite_iff_place.mp highFinite
  exact isFinite_iff_place.mpr ⟨number, by omega, by omega⟩

theorem MeasureBox.settled_positive (box : MeasureBox) {value : Float32}
    (proper : value.isFinite = true ∧ ¬value ≤ 0) :
    (box.settled value).isFinite = true ∧ ¬box.settled value ≤ 0 := by
  obtain ⟨-, -, lowPlace, highPlace, -⟩ := box.range_place
  have number := (isFinite_iff_place.mp proper.1).1
  obtain ⟨settledNumber, placed⟩ := box.settled_place number
  have positive := (not_le_zero_iff number).mp proper.2
  exact ⟨box.settled_finite proper.1, (not_le_zero_iff settledNumber).mpr (by omega)⟩

theorem MeasureBox.settled_nonNegative (box : MeasureBox) {value : Float32}
    (proper : value.isFinite = true ∧ ¬value < 0) :
    (box.settled value).isFinite = true ∧ ¬box.settled value < 0 := by
  obtain ⟨-, -, lowPlace, -, -⟩ := box.range_place
  obtain ⟨settledNumber, placed⟩ := box.settled_place (isFinite_iff_place.mp proper.1).1
  exact ⟨box.settled_finite proper.1, (not_lt_zero_iff settledNumber).mpr (by omega)⟩

theorem MeasureBox.settled_mem (box : MeasureBox) {value : Float32}
    (number : value.isNaN = false) :
    box.range.1 ≤ box.settled value ∧ box.settled value ≤ box.range.2 := by
  obtain ⟨lowFinite, highFinite, -, -, ordered⟩ := box.range_place
  obtain ⟨settledNumber, placed⟩ := box.settled_place number
  exact ⟨le_iff.mpr ⟨(isFinite_iff_place.mp lowFinite).1, settledNumber, by omega⟩,
    le_iff.mpr ⟨settledNumber, (isFinite_iff_place.mp highFinite).1, by omega⟩⟩

theorem MeasureBox.settled_of_mem (box : MeasureBox) {value : Float32}
    (above : box.range.1 ≤ value) (below : value ≤ box.range.2) : box.settled value = value := by
  have lower := le_iff.mp above
  have upper := le_iff.mp below
  have limited := clampTotal_place upper.1 lower.1 upper.2.1 (by omega)
  exact if_pos (beq_iff.mpr ⟨upper.1, limited.1, by omega⟩)

/-! ## Configurations -/

private theorem foldl_eq_self {β γ : Type} {step : β → γ → β} {items : List γ} {start : β}
    (kept : ∀ item ∈ items, step start item = start) : items.foldl step start = start := by
  induction items with
  | nil => rfl
  | cons item items ih =>
      obtain ⟨first, kept⟩ := List.forall_mem_cons.mp kept
      rw [List.foldl_cons, first]
      exact ih kept

namespace Configuration

theorem settle_of_inRange {config : Configuration Float32} (inRange : config.InRange) :
    config.settle = config := by
  have counts : CountBox.all.foldl CountBox.settle config = config := by
    refine foldl_eq_self fun box member => ?_
    rw [CountBox.settle, Nat.min_eq_left (inRange.counts box member)]
    cases box <;> rfl
  have measures : MeasureBox.all.foldl MeasureBox.settle config = config := by
    refine foldl_eq_self fun box member => ?_
    obtain ⟨above, below⟩ := inRange.measures box member
    rw [box.settle_eq_set, box.settled_of_mem above below, box.set_get]
  rw [settle, counts, measures]

theorem Valid.finite_get {config : Configuration Float32} (valid : config.Valid)
    (box : MeasureBox) : (box.get config).isFinite = true := by
  cases box with
  | halfExtent => exact valid.halfExtent.1
  | angleDegrees => exact valid.species.angleDegrees
  | segmentLength => exact valid.species.segmentLength.1
  | initialRadius => exact valid.species.initialRadius.1
  | radiusDecay => exact valid.species.radiusDecay.1
  | minRadius => exact valid.species.minRadius.1
  | leafDistance => exact valid.species.leafDistance.1
  | leafSizeMin => exact valid.species.leafSizeMin.1
  | leafSizeMax => exact valid.species.leafSizeMax.1
  | durationSecs => exact valid.felling.durationSecs.1
  | targetFraction => exact valid.felling.targetFraction.1

theorem inRange_settle {config : Configuration Float32} (valid : config.Valid) :
    config.settle.InRange where
  counts := fun box _ => by
    rw [box.get_settle]
    exact Nat.min_le_right _ _
  measures := fun box _ => by
    rw [box.get_settle]
    exact box.settled_mem (isFinite_iff_place.mp (valid.finite_get box)).1

/-- Both boxes of the leaf sizes have one range, so that limiting does not cross the sizes. -/
theorem leafSizes_settle {config : Configuration Float32} (valid : config.Valid) :
    ¬config.settle.species.leafSizeMax < config.settle.species.leafSizeMin := by
  have smallNumber := (isFinite_iff_place.mp valid.species.leafSizeMin.1).1
  have largeNumber := (isFinite_iff_place.mp valid.species.leafSizeMax.1).1
  obtain ⟨-, small⟩ := MeasureBox.leafSizeMin.settled_place smallNumber
  obtain ⟨-, large⟩ := MeasureBox.leafSizeMax.settled_place largeNumber
  have sameRange : (MeasureBox.leafSizeMin.range : Float32 × Float32) =
      MeasureBox.leafSizeMax.range :=
    rfl
  have ordered : place config.species.leafSizeMin ≤ place config.species.leafSizeMax :=
    Int.not_lt.mp fun crossed =>
      valid.species.leafSizes (lt_iff.mpr ⟨largeNumber, smallNumber, crossed⟩)
  change ¬MeasureBox.get config.settle .leafSizeMax < MeasureBox.get config.settle .leafSizeMin
  rw [MeasureBox.get_settle, MeasureBox.get_settle, lt_iff]
  rintro ⟨-, -, crossed⟩
  change place (MeasureBox.leafSizeMax.settled config.species.leafSizeMax) <
    place (MeasureBox.leafSizeMin.settled config.species.leafSizeMin) at crossed
  rw [small, large, sameRange] at crossed
  omega

theorem valid_settle {config : Configuration Float32} (valid : config.Valid) :
    config.settle.Valid := by
  have finite : ∀ box : MeasureBox, (box.get config.settle).isFinite = true := fun box => by
    rw [box.get_settle]
    exact box.settled_finite (valid.finite_get box)
  have positive : ∀ box : MeasureBox, ¬box.get config ≤ 0 →
      (box.get config.settle).isFinite = true ∧ ¬box.get config.settle ≤ 0 := fun box proper => by
    rw [box.get_settle]
    exact box.settled_positive ⟨valid.finite_get box, proper⟩
  have nonNegative : ∀ box : MeasureBox, ¬box.get config < 0 →
      (box.get config.settle).isFinite = true ∧ ¬box.get config.settle < 0 := fun box proper => by
    rw [box.get_settle]
    exact box.settled_nonNegative ⟨valid.finite_get box, proper⟩
  have iterations := (inRange_settle valid).counts .iterations (by decide)
  have rules := config.settle_rules
  have maxStep := config.settle_maxStep
  have species := valid.species
  exact {
    halfExtent := nonNegative .halfExtent valid.halfExtent.2
    species := {
      iterations
      angleDegrees := finite .angleDegrees
      segmentLength := positive .segmentLength species.segmentLength.2
      initialRadius := positive .initialRadius species.initialRadius.2
      radiusDecay := positive .radiusDecay species.radiusDecay.2
      minRadius := positive .minRadius species.minRadius.2
      leafDistance := nonNegative .leafDistance species.leafDistance.2
      leafSizeMin := positive .leafSizeMin species.leafSizeMin.2
      leafSizeMax := positive .leafSizeMax species.leafSizeMax.2
      leafSizes := leafSizes_settle valid
      rules := rules ▸ species.rules }
    felling := {
      durationSecs := positive .durationSecs valid.felling.durationSecs.2
      targetFraction := nonNegative .targetFraction valid.felling.targetFraction.2
      maxStep := maxStep ▸ valid.felling.maxStep } }

end Configuration

end Grove
