import Grove.Proofs.Forest.Phases
import Grove.Proofs.Single.Sum

/-!
# How falls go on

The phase of a tree only moves on, from standing to falling and from falling to felled. A fall keeps
its axis, its duration and its final tilt, and never goes back; a felled tree and its slots do not
change any more. This holds wherever a step does not take a falling tree back, which is the case in
single precision as well as in exact arithmetic.
-/

set_option autoImplicit false

namespace Grove

variable {α : Type} [Scalar α]

/-- A fall that has gone on: it has come as far or farther, and is the same otherwise. -/
structure Fall.Continues (fall later : Fall α) : Prop where
  durationSecs : later.durationSecs = fall.durationSecs
  finalAngle : later.finalAngle = fall.finalAngle
  axis : later.axis = fall.axis
  elapsed : fall.elapsed ≤ later.elapsed

/-- What one step can make of a phase. -/
inductive Phase.Next : Phase α → Phase α → Prop
  | stands : Next .standing .standing
  | begins (fall : Fall α) : Next .standing (.falling fall)
  | goesOn {fall later : Fall α} (continues : fall.Continues later) :
      Next (.falling fall) (.falling later)
  | ends {fall later : Fall α} (continues : fall.Continues later) :
      Next (.falling fall) (.felled later)
  | lies (fall : Fall α) : Next (.felled fall) (.felled fall)

/-- What a whole run can make of a phase: a standing tree may do anything, a fall is continued, and
a felled tree stays as it is. -/
def Phase.Leads (phase later : Phase α) : Prop :=
  match phase with
  | .standing => True
  | .falling fall => ∃ continued, later.fall? = some continued ∧ fall.Continues continued
  | .felled fall => later = .felled fall

variable (α) in
/-- Comparisons can be chained, and only what compares with itself is compared. -/
class Scalar.Chained : Prop where
  trans : ∀ {first second third : α}, first ≤ second → second ≤ third → first ≤ third
  self : ∀ {left right : α}, left ≤ right → left ≤ left

instance : Scalar.Chained Float32 where
  trans before after := by
    obtain ⟨number, -, below⟩ := Single.le_iff.mp before
    obtain ⟨-, otherNumber, above⟩ := Single.le_iff.mp after
    exact Single.le_iff.mpr ⟨number, otherNumber, Int.le_trans below above⟩
  self compared := by
    obtain ⟨number, -, -⟩ := Single.le_iff.mp compared
    exact Single.le_iff.mpr ⟨number, number, Int.le_refl _⟩

theorem Fall.Continues.trans [Scalar.Chained α] {first second third : Fall α}
    (before : first.Continues second) (after : second.Continues third) :
    first.Continues third where
  durationSecs := after.durationSecs.trans before.durationSecs
  finalAngle := after.finalAngle.trans before.finalAngle
  axis := after.axis.trans before.axis
  elapsed := Scalar.Chained.trans before.elapsed after.elapsed

theorem Fall.continues_advance {fall : Fall α} {time : α}
    (onward : fall.elapsed ≤ (fall.advance time).elapsed) : fall.Continues (fall.advance time) :=
  ⟨rfl, rfl, rfl, onward⟩

namespace Phase

private theorem next_advance {phase : Phase α} {time : α}
    (onward : ∀ fall, phase = .falling fall → fall.elapsed ≤ (fall.advance time).elapsed) :
    phase.Next (phase.advance time) := by
  cases phase with
  | standing => exact .stands
  | falling fall =>
      have continues := Fall.continues_advance (onward fall rfl)
      change Next _ (fall.advance time).phase
      unfold Fall.phase
      split
      · exact .ends continues
      · exact .goesOn continues
  | felled fall => exact .lies fall

theorem Leads.self {phase : Phase α}
    (number : ∀ fall, phase = .falling fall → fall.elapsed ≤ fall.elapsed) :
    phase.Leads phase := by
  cases phase with
  | standing => exact True.intro
  | falling fall => exact ⟨fall, rfl, rfl, rfl, rfl, number fall rfl⟩
  | felled fall => rfl

theorem Leads.next [Scalar.Chained α] {phase later next : Phase α} (leads : phase.Leads later)
    (step : later.Next next) : phase.Leads next := by
  cases phase with
  | standing => exact True.intro
  | falling fall =>
      obtain ⟨continued, recorded, continues⟩ := leads
      cases step with
      | stands => cases recorded
      | begins other => cases recorded
      | goesOn goesOn =>
          cases recorded
          exact ⟨_, rfl, continues.trans goesOn⟩
      | ends ends =>
          cases recorded
          exact ⟨_, rfl, continues.trans ends⟩
      | lies other => exact ⟨continued, recorded, continues⟩
  | felled fall =>
      cases leads
      cases step
      rfl

end Phase

namespace Scene

/-- No step takes a falling tree of the scene back. -/
def Onward (scene : Scene α) : Prop :=
  ∀ id tree fall time, scene.tree? id = some tree → tree.phase = .falling fall →
    fall.elapsed ≤ (fall.advance (scene.stepTime time)).elapsed

theorem Onward.self [Scalar.Chained α] {scene : Scene α} (onward : scene.Onward) {id : TreeId}
    {tree : Tree α} (found : scene.tree? id = some tree) {fall : Fall α}
    (falling : tree.phase = .falling fall) : fall.elapsed ≤ fall.elapsed :=
  Scalar.Chained.self (onward id tree fall fall.elapsed found falling)

theorem Onward.stays [Scalar.Chained α] {scene : Scene α} (onward : scene.Onward) {id : TreeId}
    {tree : Tree α} (found : scene.tree? id = some tree) : tree.phase.Next tree.phase := by
  cases phase : tree.phase with
  | standing => exact .stands
  | falling fall => exact .goesOn ⟨rfl, rfl, rfl, onward.self found phase⟩
  | felled fall => exact .lies fall

/-- Every step moves every phase on. -/
theorem next_step [Scalar.Chained α] {scene : Scene α} (sound : scene.Sound)
    (onward : scene.Onward) (step : ForestStep α) {id : TreeId} {tree : Tree α}
    (found : scene.tree? id = some tree) :
    ∃ next, (scene.step step).tree? id = some next ∧ tree.phase.Next next.phase := by
  cases step with
  | update time =>
      refine ⟨tree.advance (scene.stepTime time), ?_,
        Phase.next_advance fun fall falling => onward id tree fall time found falling⟩
      rw [tree?_update sound, found]
      rfl
  | fell felled reference =>
      rcases scene.population.standing_or_not felled with ⟨other, known, standing⟩ | down
      · rw [tree?_fell_of_standing known standing]
        split
        · rename_i same
          subst same
          cases found.symm.trans known
          refine ⟨_, rfl, ?_⟩
          rw [standing]
          exact .begins _
        · exact ⟨tree, found, onward.stays found⟩
      · rw [step_fell_of_not_standing down]
        exact ⟨tree, found, onward.stays found⟩

/-- Where no step takes a tree back, a run moves every phase on. -/
theorem leads_run [Scalar.Chained α] {scene : Scene α} (sound : scene.Sound)
    (onward : ∀ steps, (scene.run steps).Onward) (steps : List (ForestStep α)) {id : TreeId}
    {tree : Tree α} (found : scene.tree? id = some tree) :
    ∃ later, (scene.run steps).tree? id = some later ∧ tree.phase.Leads later.phase := by
  induction steps using List.reverseRecOn with
  | nil => exact ⟨tree, found, Phase.Leads.self fun fall falling => (onward []).self found falling⟩
  | append_singleton steps step induction =>
      obtain ⟨middle, reached, leads⟩ := induction
      obtain ⟨next, known, moved⟩ := next_step (sound.run steps) (onward steps) step reached
      rw [run_concat]
      exact ⟨next, known, leads.next moved⟩

/-! ## Felled trees -/

/-- A tree and its slots are the same in two scenes, and the renderer shows the same. -/
structure Unmoved (before after : Scene α) (id : TreeId) : Prop where
  tree : after.tree? id = before.tree? id
  slots : ∀ category slot content, before.slot? category slot = some content →
    content.owner = id → ∃ later, after.slot? category slot = some later ∧ later.owner = id ∧
      later.live = content.live ∧
      after.uploaded? category slot = before.uploaded? category slot

omit [Scalar α] in
theorem Unmoved.refl (scene : Scene α) (id : TreeId) : Unmoved scene scene id :=
  ⟨rfl, fun _ _ content found owned => ⟨content, found, owned, rfl, rfl⟩⟩

omit [Scalar α] in
theorem Unmoved.trans {first second third : Scene α} {id : TreeId}
    (before : Unmoved first second id) (after : Unmoved second third id) :
    Unmoved first third id where
  tree := after.tree.trans before.tree
  slots category slot content found owned := by
    obtain ⟨middle, reached, stillOwned, same, shown⟩ :=
      before.slots category slot content found owned
    obtain ⟨later, known, lastOwned, sameLater, shownLater⟩ :=
      after.slots category slot middle reached stillOwned
    exact ⟨later, known, lastOwned, sameLater.trans same, shownLater.trans shown⟩

/-- No step touches a felled tree. -/
theorem unmoved_step {scene : Scene α} (sound : scene.Sound) (step : ForestStep α) {id : TreeId}
    {tree : Tree α} (found : scene.tree? id = some tree) (felled : tree.phase.isFelled = true) :
    Unmoved scene (scene.step step) id := by
  have idle : tree.phase.isFalling = false := by
    cases phase : tree.phase with
    | standing => rfl
    | falling fall =>
        rw [phase] at felled
        cases felled
    | felled fall => rfl
  have kept : (scene.step step).tree? id = scene.tree? id := by
    cases step with
    | update time =>
        rw [tree?_update sound, found, Option.map_some, Stand.advance_of_not_falling idle]
    | fell other reference =>
        rcases scene.population.standing_or_not other with ⟨upright, known, standing⟩ | down
        · rw [tree?_fell_of_standing known standing]
          split
          · rename_i same
            subst same
            cases found.symm.trans known
            rw [standing] at felled
            cases felled
          · rfl
        · rw [step_fell_of_not_standing down]
  refine ⟨kept, ?_⟩
  intro category slot content recorded owned
  have later : ∃ later, (scene.step step).slot? category slot = some later ∧ later.owner = id ∧
      later.live = content.live := by
    cases step with
    | update time =>
        have still : scene.rotation? time content.owner = none := by
          rw [rotation?, owned, found]
          exact Stand.rotation?_of_not_falling idle _
        rw [slot?_update sound, recorded, Option.map_some, still]
        exact ⟨_, rfl, owned, rfl⟩
    | fell other reference =>
        rw [slot?_fell]
        exact ⟨content, recorded, owned, rfl⟩
  obtain ⟨after, known, stillOwned, same⟩ := later
  refine ⟨after, known, stillOwned, same, ?_⟩
  rw [(sound.step step).shown category slot after known,
    sound.shown category slot content recorded, same]

/-- No run touches a felled tree. -/
theorem unmoved_run {scene : Scene α} (sound : scene.Sound) (steps : List (ForestStep α))
    {id : TreeId} {tree : Tree α} (found : scene.tree? id = some tree)
    (felled : tree.phase.isFelled = true) : Unmoved scene (scene.run steps) id := by
  induction steps generalizing scene with
  | nil => exact .refl scene id
  | cons step steps induction =>
      have first := unmoved_step sound step found felled
      exact first.trans (induction (sound.step step) (first.tree.trans found))

end Scene

/-! ## Single precision -/

open Single

theorem place_stepTime_nonneg (animator : Animator Float32) (time : Float32) :
    0 ≤ place (animator.stepTime time) :=
  place_max_zero_nonneg _

theorem Fall.place_fraction_nonneg {felling : Felling Float32} (timed : felling.Timed)
    {fall : Fall Float32} (duration : fall.durationSecs = felling.durationSecs) {time : Float32}
    (number : time.isNaN = false) (nonneg : 0 ≤ place time) : 0 ≤ place (fall.fraction time) := by
  have positive : 0 < fall.durationSecs := duration ▸ timed.positive
  have place := (lt_iff.mp positive).2.2
  rw [place_zero] at place
  unfold Fall.fraction
  rw [if_pos positive]
  exact place_div_nonneg number nonneg (duration ▸ timed.finite) place

/-- In single precision rounding never takes a fall back. -/
theorem Fall.elapsed_le_advance {felling : Felling Float32} (timed : felling.Timed)
    {fall : Fall Float32} (before : (Phase.falling fall).WellTimed felling) {time : Float32}
    (number : time.isNaN = false) (nonneg : 0 ≤ place time) :
    fall.elapsed ≤ (fall.advance time).elapsed := by
  obtain ⟨duration, least, most⟩ := before
  obtain ⟨-, elapsedNumber, least⟩ := le_iff.mp least
  obtain ⟨-, -, most⟩ := lt_iff.mp most
  rw [place_zero] at least
  have finite : fall.elapsed.isFinite = true := by
    rw [isFinite_iff_place]
    rw [place_one] at most
    unfold endPlace
    exact ⟨elapsedNumber, by omega, by omega⟩
  have fractionNumber := Fall.fraction_isNaN timed duration number
  have increased := le_place_add finite least fractionNumber
    (Fall.place_fraction_nonneg timed duration number nonneg)
  have sum := add_isNaN finite fractionNumber
  exact le_iff.mpr ⟨elapsedNumber, (clamp_unit sum).1,
    le_place_clamp sum least (Int.le_of_lt most) increased⟩

namespace Scene

theorem WellTimed.onward {scene : Scene Float32} {felling : Felling Float32}
    (timed : felling.Timed) (wellTimed : scene.WellTimed felling) : scene.Onward := by
  intro id tree fall time found falling
  have before := wellTimed.phases id tree found
  rw [falling] at before
  exact Fall.elapsed_le_advance timed before (stepTime_isNaN _ _) (place_stepTime_nonneg _ _)

end Scene

end Grove
