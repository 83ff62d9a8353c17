import Grove.Proofs.Forest.Progress
import Grove.Proofs.Forest.Rows
import Grove.Proofs.Single.Overflow

/-!
# Which numbers of a fall are finite

A fall in single precision starts with a finite axis unless the square of the horizontal distance
from the reference point overflows; then no part of the axis is a number. Its tilts are finite
unless the final tilt overflows, which the checks of a felling do not rule out. The time that the
fall has taken is always finite. No step of a run changes any of this.
-/

set_option autoImplicit false

namespace Grove

open Single
open Float.Model.UnpackedFloat

variable {σ : Type} [Generator σ]

/-! ## The final tilt -/

namespace Felling

/-- The greatest fraction of a right angle whose radians are finite. -/
def greatestFraction : Float32 := 2.1663045e38

private theorem greatestFraction_eq : greatestFraction = .ofBits 0x7f22f982 := by decide +kernel

private theorem reading_rightAngle : reading Scalar.rightAngle = 13176795 * 2 ^ (-23 : ℤ) := by
  have said : meaning Scalar.rightAngle = .finite .positive 13176795 (-23) (by decide) := rfl
  rw [reading_of_finite said]
  norm_num [factor]

private theorem rightAngle_isFinite : (Scalar.rightAngle : Float32).isFinite = true := by decide

private theorem finalAngle_isFinite {felling : Felling Float32}
    (finite : felling.targetFraction.isFinite = true) (nonneg : 0 ≤ place felling.targetFraction)
    (below : place felling.targetFraction ≤ 0x7f22f982) : felling.finalAngle.isFinite = true := by
  have said : meaning (.ofBits 0x7f22f982) = .finite .positive 10680706 104 (by decide) := rfl
  have least := reading_le (by decide) finite (place_zero.symm ▸ nonneg)
  have limit : place (.ofBits 0x7f22f982) = 0x7f22f982 := by decide
  have most := reading_le finite (by decide) (limit ▸ below)
  rw [reading_zero] at least
  rw [reading_of_finite said] at most
  have grid : OnGrid ((2 ^ 24 - 1) * 2 ^ (104 : ℤ)) :=
    ⟨2 ^ 24 - 1, 104, by norm_num, by norm_num, by norm_num⟩
  refine ((rounds_mul finite rightAngle_isFinite).near grid ?_ (by norm_num)).finite
  rw [reading_rightAngle, abs_of_nonneg (by positivity)]
  norm_num [factor] at most ⊢
  linarith

private theorem finalAngle_not_isFinite {felling : Felling Float32}
    (finite : felling.targetFraction.isFinite = true)
    (above : 0x7f22f982 < place felling.targetFraction) : felling.finalAngle.isFinite = false := by
  rw [← Bool.not_eq_true]
  intro angleFinite
  -- The product with the next number is rounded up to an infinity; from the one after that, the
  -- product is at least as great as the power of two that is the first not to be finite.
  by_cases next : place felling.targetFraction = 0x7f22f983
  · have same : felling.targetFraction = .ofBits 0x7f22f983 := eq_of_place next (next ▸ by decide)
    unfold finalAngle at angleFinite
    rw [same] at angleFinite
    exact absurd angleFinite (by decide +kernel)
  · have said : meaning (.ofBits 0x7f22f984) = .finite .positive 10680708 104 (by decide) := rfl
    have limit : place (.ofBits 0x7f22f984) = 0x7f22f984 := by decide
    have beyond : place (.ofBits 0x7f22f984) ≤ place felling.targetFraction := by omega
    have great := reading_le (by decide) finite beyond
    have near := (rounds_mul finite rightAngle_isFinite).near_of_finite angleFinite
    have angle : (2 : ℝ) ^ (128 : ℤ) ≤ reading felling.finalAngle := by
      refine near.least _ ⟨1, 128, by norm_num, by norm_num, by norm_num⟩ ?_
      rw [reading_of_finite said] at great
      rw [reading_rightAngle]
      norm_num [factor] at great ⊢
      linarith
    have small := (abs_lt.mp (abs_reading_lt felling.finalAngle)).2
    norm_num at angle small
    linarith

private theorem finalAngle_isFinite_iff {felling : Felling Float32}
    (valid : felling.validate = .ok ()) :
    felling.finalAngle.isFinite = true ↔ felling.targetFraction ≤ greatestFraction := by
  obtain ⟨finite, notBelow⟩ := (felling.validate_eq_ok_iff.mp valid).targetFraction
  have number := (isFinite_iff_place.mp finite).1
  have limit : place greatestFraction = 0x7f22f982 := by
    rw [greatestFraction_eq]
    decide
  rw [le_iff, limit]
  constructor
  · intro angleFinite
    refine ⟨number, by rw [greatestFraction_eq]; decide, ?_⟩
    by_contra above
    rw [finalAngle_not_isFinite finite (Int.not_le.mp above)] at angleFinite
    cases angleFinite
  · rintro ⟨-, -, below⟩
    exact finalAngle_isFinite finite ((not_lt_zero_iff number).mp notBelow) below

/-- A felling whose final tilt overflows. -/
def steep : Felling Float32 :=
  { (Felling.standard : Felling Float32) with targetFraction := 3e38 }

end Felling

/-! ## The axis -/

namespace Fall

/-- The horizontal vector from a reference point to a tree. -/
def offset {α : Type} [Scalar α] (position reference : Vec3 α) : Vec3 α :=
  ⟨position.x - reference.x, 0, position.z - reference.z⟩

private theorem axis_start_isFinite (felling : Felling Float32) {position reference : Vec3 Float32}
    (finite : (offset position reference).lengthSquared.isFinite = true) :
    (Fall.start felling position reference).axis.isFinite = true := by
  change (Vec3.up.cross (Fall.direction position reference)).normalize.isFinite = true
  change (Vec3.up.cross (if (offset position reference).lengthSquared < 1e-6 then _
    else (offset position reference).normalize)).normalize.isFinite = true
  split
  · decide +kernel
  · rename_i apart
    obtain ⟨low, least, most, spans⟩ := exists_spans finite apart
    -- The unit vector has a part of at least a quarter and none above two, so nothing overflows when
    -- it is turned and scaled once more.
    obtain ⟨unit, horizontal⟩ := spans.normalize finite least (by omega)
    have turned := unit.cross_up (horizontal reading_zero)
    have short := lengthSquared_finite turned (by omega) (by omega)
    exact isFinite_iff_parts.mpr (turned.normalize short (by omega) (by omega)).1.finite

private theorem axis_start_isNaN (felling : Felling Float32) {position reference : Vec3 Float32}
    (overflow : (offset position reference).lengthSquared.isFinite = false) :
    ∀ part ∈ parts (Fall.start felling position reference).axis, part.isNaN = true := by
  have notShort : ¬ (offset position reference).lengthSquared < 1e-6 := by
    rcases eq_of_not_finite overflow (place_lengthSquared_nonneg _) with same | same
    · rw [same]
      decide
    · rw [same]
      decide
  have direction : Fall.direction position reference = (offset position reference).normalize :=
    if_neg notShort
  change ∀ part ∈ parts (Vec3.up.cross (Fall.direction position reference)).normalize, _
  rw [direction]
  exact isNaN_of_overflow overflow

/-! ## The tilt -/

private theorem course_inUnit {time : Float32} (number : time.isNaN = false) :
    InUnit (course time) := by
  obtain ⟨clampedNumber, least, most⟩ := clamp_unit number
  have left := (inUnit_of_place clampedNumber least most).one_sub
  exact ((left.mul left).mul left).one_sub

private theorem angle_isFinite_iff {fall : Fall Float32} (number : fall.elapsed.isNaN = false) :
    fall.angle.isFinite = true ↔ fall.finalAngle.isFinite = true := by
  constructor
  · intro finite
    exact (finite_of_mul finite).2
  · intro finite
    exact ((course_inUnit number).near_mul finite).finite

end Fall

/-! ## Falls in a run -/

/-- How far the numbers of a fall range: its axis is finite unless the squared distance from the
reference point overflows, its tilts are finite unless the final one overflows, and the rest is
always finite. -/
structure Fall.InRange (felling : Felling Float32) (position reference : Vec3 Float32)
    (fall : Fall Float32) : Prop where
  elapsed : fall.elapsed.isFinite = true
  durationSecs : fall.durationSecs.isFinite = true
  finalAngle : fall.finalAngle.isFinite = true ↔
    felling.targetFraction ≤ Felling.greatestFraction
  angle : fall.angle.isFinite = true ↔ felling.targetFraction ≤ Felling.greatestFraction
  axis : fall.axis.isFinite = true ↔
    (Fall.offset position reference).lengthSquared.isFinite = true
  axis_isNaN : (Fall.offset position reference).lengthSquared.isFinite = false →
    ∀ part ∈ parts fall.axis, part.isNaN = true

theorem Fall.Continues.inRange {felling : Felling Float32} (valid : felling.validate = .ok ())
    {position reference : Vec3 Float32} {fall : Fall Float32}
    (continues : (Fall.start felling position reference).Continues fall)
    (most : fall.elapsed ≤ 1) : fall.InRange felling position reference := by
  obtain ⟨duration, finalAngle, axis, least⟩ := continues
  obtain ⟨-, number, least⟩ := le_iff.mp least
  have within := inUnit_of_place number (place_zero ▸ least) (le_iff.mp most).2.2
  have finalFinite : fall.finalAngle.isFinite = true ↔
      felling.targetFraction ≤ Felling.greatestFraction := by
    rw [finalAngle]
    exact Felling.finalAngle_isFinite_iff valid
  refine ⟨within.finite, duration ▸ (Felling.timed_of_validate valid).finite, finalFinite,
    (Fall.angle_isFinite_iff number).trans finalFinite, ?_, ?_⟩
  · rw [axis]
    constructor
    · intro finite
      by_contra overflow
      have lost := Fall.axis_start_isNaN felling (Bool.not_eq_true _ ▸ overflow) _ (.head _)
      have first := isFinite_iff_parts.mp finite _ (.head _)
      rw [isFinite_iff_place, lost] at first
      cases first.1
    · exact Fall.axis_start_isFinite felling
  · rw [axis]
    exact Fall.axis_start_isNaN felling

theorem Scene.PhasesAgree.elapsed_le_one {scene : Scene Float32} (agree : scene.PhasesAgree)
    {id : TreeId} {tree : Tree Float32} (found : scene.tree? id = some tree) {fall : Fall Float32}
    (recorded : tree.phase.fall? = some fall) : fall.elapsed ≤ 1 := by
  cases phase : tree.phase with
  | standing =>
      rw [phase] at recorded
      cases recorded
  | falling known =>
      rw [phase] at recorded
      cases recorded
      obtain ⟨number, otherNumber, below⟩ := lt_iff.mp (agree.falling id tree fall found phase).2
      exact le_iff.mpr ⟨number, otherNumber, Int.le_of_lt below⟩
  | felled known =>
      rw [phase] at recorded
      cases recorded
      rw [agree.felled id tree fall found phase]
      exact le_iff.mpr ⟨one_isNaN, one_isNaN, Int.le_refl _⟩

namespace Scene

/-- From the beginning of a fall on, through every run of a planted forest with a valid felling, the
numbers of the fall are finite unless the final tilt or the squared distance overflows. -/
theorem inRange_of_run {felling : Felling Float32} (valid : felling.validate = .ok ())
    {planted : Scene Float32} (start : planted.Planted σ felling)
    (earlier : List (ForestStep Float32)) {id : TreeId} {tree : Tree Float32}
    (found : (planted.run earlier).tree? id = some tree) (standing : tree.phase = .standing)
    (reference : Vec3 Float32) (later : List (ForestStep Float32)) :
    ∃ after fall, (planted.run (earlier ++ .fell id reference :: later)).tree? id = some after ∧
      after.phase.fall? = some fall ∧ after.tilt = fall.angle ∧
      fall.InRange felling tree.position reference := by
  have timed := Felling.timed_of_validate valid
  have sound := start.upright.sound.run earlier
  have wellTimed := start.upright.wellTimed.run timed start.upright.sound earlier
  have begun : ((planted.run earlier).step (.fell id reference)).WellTimed felling :=
    wellTimed.run timed sound [.fell id reference]
  have falling := tree?_fell_of_standing found standing reference id
  rw [if_pos rfl, wellTimed.same] at falling
  obtain ⟨after, reached, fall, recorded, continues⟩ := leads_run (sound.step _)
    (fun steps => (begun.run timed (sound.step _) steps).onward timed) later falling
  have agree := phasesAgree_of_run valid start (earlier ++ .fell id reference :: later)
  rw [run_append] at agree ⊢
  refine ⟨after, fall, reached, recorded, ?_, continues.inRange valid
    (agree.elapsed_le_one reached recorded)⟩
  unfold Tree.tilt
  rw [recorded]

theorem inRange_of_run_pole :
    (Felling.standard : Felling Float32).validate = .ok () ∧
      Scene.pole.Planted Cycle .standard ∧
      ∃ tree, (Scene.pole.run []).tree? 0 = some tree ∧ tree.phase = .standing ∧
        ∃ after fall, (Scene.pole.run [.fell 0 ⟨1, 0, 0⟩, .update 1, .update 2]).tree? 0 =
            some after ∧
          after.phase.fall? = some fall ∧ after.tilt = fall.angle ∧
          fall.InRange .standard tree.position ⟨1, 0, 0⟩ := by
  have isThere : (Scene.pole.tree? 0).isSome = true := by decide +kernel
  obtain ⟨tree, found⟩ := Option.isSome_iff_exists.mp isThere
  have standing := (pole_planted.upright.stand.trees 0 tree found).2
  have began : (Scene.pole.run []).tree? 0 = some tree := by
    simpa only [Scene.run, List.foldl_nil] using found
  exact ⟨rfl, pole_planted, tree, began, standing,
    inRange_of_run rfl pole_planted [] began standing ⟨1, 0, 0⟩ [.update 1, .update 2]⟩

/-- The checks of a felling let final tilts through that overflow, and no check keeps a reference
point from being too far away for an axis. -/
theorem overflow_of_valid :
    (Felling.steep.validate = .ok () ∧ ∃ planted : Scene Float32, planted.Planted Cycle .steep ∧
      ∃ tree, (planted.run [.fell 0 ⟨1, 0, 0⟩]).tree? 0 = some tree ∧ tree.tilt.isNaN = true) ∧
    (Felling.standard : Felling Float32).validate = .ok () ∧ Scene.pole.Planted Cycle .standard ∧
      ∃ tree fall, (Scene.pole.run [.fell 0 ⟨1e20, 0, 0⟩]).tree? 0 = some tree ∧
        tree.phase.fall? = some fall ∧ ∀ part ∈ parts fall.axis, part.isNaN = true := by
  have isThere : ((Scene.pole.tree? 0).any fun tree =>
      !(Fall.offset tree.position ⟨1e20, 0, 0⟩).lengthSquared.isFinite) = true := by decide +kernel
  obtain ⟨tree, found, overflow⟩ := (Option.any_eq_true _ _).mp isThere
  obtain ⟨planted, start, trees⟩ :=
    Population.exists_planted Species.drawable_broadleaf [⟨0, 0, 0⟩] .steep (⟨#[0], 0⟩ : Cycle)
  obtain ⟨other, known, standing⟩ := trees 0 Nat.one_pos
  have felling : planted.population.animator.felling = .steep := by rw [start.upright.animator]
  have steepFall := tree?_fell_of_standing known standing ⟨1, 0, 0⟩ 0
  have farFall := tree?_fell_of_standing found
    (pole_planted.upright.stand.trees 0 tree found).2 ⟨1e20, 0, 0⟩ 0
  rw [if_pos rfl] at steepFall farFall
  have valid : Felling.steep.validate = .ok () := Except.eq_ok_of_isOk (by decide +kernel)
  refine ⟨⟨valid, planted, start, _, steepFall, ?_⟩, rfl, pole_planted, _, _, farFall, rfl,
    Fall.axis_start_isNaN _ (by simpa using overflow)⟩
  change (Fall.course 0 * planted.population.animator.felling.finalAngle).isNaN = true
  rw [felling]
  decide +kernel

end Scene

end Grove
