import Grove.Proofs.Config.Validity
import Grove.Proofs.Forest.Sound
import Grove.Proofs.Single.Arithmetic

/-!
# Phases of trees

In single precision the steps of an animation can have any length, also one that is not a number.
Still a falling tree has always come some part of its way and never all of it, a felled tree has
come exactly all of it, and the animator knows exactly the trees that fall.
-/

set_option autoImplicit false

namespace Grove

open Single

variable {σ : Type} [Generator σ]

structure Felling.Timed (felling : Felling Float32) : Prop where
  finite : felling.durationSecs.isFinite = true
  positive : 0 < felling.durationSecs

theorem Felling.timed_of_validate {felling : Felling Float32}
    (valid : felling.validate = .ok ()) : felling.Timed := by
  obtain ⟨finite, positive⟩ := (felling.validate_eq_ok_iff.mp valid).durationSecs
  have number := (isFinite_iff_place.mp finite).1
  refine ⟨finite, lt_iff.mpr ⟨zero_isNaN, number, ?_⟩⟩
  exact place_zero ▸ (not_le_zero_iff number).mp positive

/-- The fall of a tree has come as far as its phase says. -/
def Phase.WellTimed (felling : Felling Float32) : Phase Float32 → Prop
  | .standing => True
  | .falling fall =>
      fall.durationSecs = felling.durationSecs ∧ 0 ≤ fall.elapsed ∧ fall.elapsed < 1
  | .felled fall => fall.durationSecs = felling.durationSecs ∧ fall.elapsed = 1

theorem stepTime_isNaN (animator : Animator Float32) (time : Float32) :
    (animator.stepTime time).isNaN = false :=
  max_zero_isNaN _

theorem Fall.fraction_isNaN {felling : Felling Float32} (timed : felling.Timed)
    {fall : Fall Float32} (duration : fall.durationSecs = felling.durationSecs) {time : Float32}
    (number : time.isNaN = false) : (fall.fraction time).isNaN = false := by
  have positive : 0 < fall.durationSecs := duration ▸ timed.positive
  have place := (lt_iff.mp positive).2.2
  rw [place_zero] at place
  unfold Fall.fraction
  rw [if_pos positive]
  exact div_isNaN number (duration ▸ timed.finite) (Int.ne_of_gt place)

theorem Fall.advance_wellTimed {felling : Felling Float32} (timed : felling.Timed)
    {fall : Fall Float32} (before : (Phase.falling fall).WellTimed felling) {time : Float32}
    (number : time.isNaN = false) : (fall.advance time).phase.WellTimed felling := by
  obtain ⟨duration, least, most⟩ := before
  obtain ⟨-, elapsedNumber, least⟩ := le_iff.mp least
  obtain ⟨-, -, most⟩ := lt_iff.mp most
  rw [place_zero] at least
  rw [place_one] at most
  have finite : fall.elapsed.isFinite = true := by
    rw [isFinite_iff_place]
    unfold endPlace
    exact ⟨elapsedNumber, by omega, by omega⟩
  have sum : (fall.elapsed + fall.fraction time).isNaN = false :=
    add_isNaN finite (Fall.fraction_isNaN timed duration number)
  obtain ⟨clampedNumber, clampedLeast, clampedMost⟩ := clamp_unit sum
  have elapsed : (fall.advance time).elapsed =
      Scalar.clamp (fall.elapsed + fall.fraction time) 0 1 := rfl
  rw [← elapsed] at clampedNumber clampedLeast clampedMost
  have sameDuration : (fall.advance time).durationSecs = felling.durationSecs := duration
  unfold Fall.phase Fall.isOver
  by_cases ended : 1 ≤ (fall.advance time).elapsed
  · rw [decide_eq_true ended, if_pos rfl]
    have reached := (le_iff.mp ended).2.2
    refine ⟨sameDuration, (eq_of_place (Int.le_antisymm reached clampedMost) ?_).symm⟩
    rw [place_one]
    decide
  · rw [decide_eq_false ended, if_neg Bool.false_ne_true]
    refine ⟨sameDuration, le_iff.mpr ⟨zero_isNaN, clampedNumber, ?_⟩,
      lt_iff.mpr ⟨clampedNumber, one_isNaN, ?_⟩⟩
    · rw [place_zero]
      exact clampedLeast
    · rw [← Int.not_le]
      intro reached
      exact ended (le_iff.mpr ⟨one_isNaN, clampedNumber, reached⟩)

theorem Fall.start_wellTimed (felling : Felling Float32) (position reference : Vec3 Float32) :
    (Phase.falling (Fall.start felling position reference)).WellTimed felling := by
  refine ⟨rfl, le_iff.mpr ⟨zero_isNaN, zero_isNaN, Int.le_refl _⟩,
    lt_iff.mpr ⟨zero_isNaN, one_isNaN, ?_⟩⟩
  change place 0 < place 1
  rw [place_zero, place_one]
  decide

namespace Scene

/-- A scene whose trees have come as far as their phases say. -/
structure WellTimed (scene : Scene Float32) (felling : Felling Float32) : Prop where
  same : scene.population.animator.felling = felling
  phases : ∀ id tree, scene.tree? id = some tree → tree.phase.WellTimed felling

theorem WellTimed.run {scene : Scene Float32} {felling : Felling Float32}
    (timed : felling.Timed) (sound : scene.Sound) (wellTimed : scene.WellTimed felling)
    (steps : List (ForestStep Float32)) : (scene.run steps).WellTimed felling := by
  have phases : scene.Phases felling (Phase.WellTimed felling) :=
    ⟨wellTimed.same, wellTimed.phases⟩
  obtain ⟨same, phases⟩ := phases.run (Fall.start_wellTimed felling)
    (fun _ _ before => Fall.advance_wellTimed timed before (stepTime_isNaN _ _)) sound steps
  exact ⟨same, phases⟩

theorem Upright.wellTimed {scene : Scene Float32} {felling : Felling Float32}
    (upright : scene.Upright felling) : scene.WellTimed felling where
  same := by rw [upright.animator]
  phases id tree found := by
    rw [(upright.stand.trees id tree found).2]
    trivial

theorem Sound.countFalling {α : Type} {scene : Scene α} (sound : scene.Sound) :
    scene.population.countFalling = scene.population.trees.countP (·.phase.isFalling) := by
  have perm : scene.population.animator.active.Perm
      ((List.range scene.population.trees.size).filter fun id =>
        (scene.tree? id).any (·.phase.isFalling)) := by
    rw [List.perm_ext_iff_of_nodup sound.active_nodup (List.nodup_range.filter _)]
    intro id
    rw [sound.mem_active_iff, List.mem_filter, List.mem_range, Option.any_eq_true]
    constructor
    · rintro ⟨tree, found, falling⟩
      exact ⟨(Array.getElem?_eq_some_iff.mp found).1, tree, found, falling⟩
    · rintro ⟨-, falling⟩
      exact falling
  have trees : (List.range scene.population.trees.size).map scene.tree? =
      scene.population.trees.toList.map some := by
    apply List.ext_getElem
    · simp
    · intro id _ inside
      simp only [List.length_map, Array.length_toList] at inside
      simp [tree?, Stand.tree?, Population.trees]
  calc scene.population.countFalling
      = ((List.range scene.population.trees.size).filter fun id =>
          (scene.tree? id).any (·.phase.isFalling)).length := perm.length_eq
    _ = ((List.range scene.population.trees.size).map scene.tree?).countP
          (·.any (·.phase.isFalling)) := by
        rw [← List.countP_eq_length_filter, List.countP_map]
        rfl
    _ = scene.population.trees.toList.countP (·.phase.isFalling) := by
        rw [trees, List.countP_map]
        rfl
    _ = scene.population.trees.countP (·.phase.isFalling) := Array.countP_toList

/-- The list of the animator, the phases of the trees and the answers to further falls agree, and
every fall has come as far as the phase of its tree says. -/
structure PhasesAgree (scene : Scene Float32) : Prop where
  active_nodup : scene.population.animator.active.Nodup
  mem_active_iff : ∀ id, id ∈ scene.population.animator.active ↔
    ∃ tree fall, scene.tree? id = some tree ∧ tree.id = id ∧ tree.phase = .falling fall
  countFalling : scene.population.countFalling =
    scene.population.trees.countP (·.phase.isFalling)
  falling : ∀ id tree fall, scene.tree? id = some tree → tree.phase = .falling fall →
    0 ≤ fall.elapsed ∧ fall.elapsed < 1
  felled : ∀ id tree fall, scene.tree? id = some tree → tree.phase = .felled fall →
    fall.elapsed = 1
  number : ∀ id tree fall, scene.tree? id = some tree → tree.phase.fall? = some fall →
    fall.elapsed.isNaN = false
  fell_iff : ∀ id reference, (scene.population.fell id reference).1 = true ↔
    ∃ inside : id < scene.population.trees.size,
      scene.population.trees[id].phase = .standing

theorem WellTimed.phasesAgree {scene : Scene Float32} {felling : Felling Float32}
    (sound : scene.Sound) (wellTimed : scene.WellTimed felling) : scene.PhasesAgree where
  active_nodup := sound.active_nodup
  mem_active_iff id := by
    rw [sound.mem_active_iff]
    constructor
    · rintro ⟨tree, found, falling⟩
      obtain ⟨fall, phase⟩ := Phase.isFalling_eq_true_iff.mp falling
      exact ⟨tree, fall, found, sound.ids id tree found, phase⟩
    · rintro ⟨tree, fall, found, -, phase⟩
      exact ⟨tree, found, Phase.isFalling_eq_true_iff.mpr ⟨fall, phase⟩⟩
  countFalling := sound.countFalling
  falling id tree fall found phase := by
    have timed := wellTimed.phases id tree found
    rw [phase] at timed
    exact timed.2
  felled id tree fall found phase := by
    have timed := wellTimed.phases id tree found
    rw [phase] at timed
    exact timed.2
  number id tree fall found recorded := by
    have timed := wellTimed.phases id tree found
    cases phase : tree.phase with
    | standing =>
        rw [phase] at recorded
        cases recorded
    | falling known =>
        rw [phase] at recorded timed
        cases recorded
        exact (lt_iff.mp timed.2.2).1
    | felled known =>
        rw [phase] at recorded timed
        cases recorded
        rw [timed.2]
        exact one_isNaN
  fell_iff id reference := by
    rw [Population.fell_eq_true_iff]
    constructor
    · rintro ⟨tree, found, standing⟩
      obtain ⟨inside, same⟩ := Array.getElem?_eq_some_iff.mp found
      exact ⟨inside, same ▸ standing⟩
    · rintro ⟨inside, standing⟩
      exact ⟨_, Array.getElem?_eq_getElem inside, standing⟩

/-- Whatever trees are made to fall and whatever times pass, in a planted forest with a valid
felling the list of falling trees, the phases and the answers to further falls agree. -/
theorem phasesAgree_of_run {felling : Felling Float32} (valid : felling.validate = .ok ())
    {planted : Scene Float32} (start : planted.Planted σ felling)
    (steps : List (ForestStep Float32)) : (planted.run steps).PhasesAgree := by
  have timed := Felling.timed_of_validate valid
  have upright := start.upright
  have sound := upright.sound
  exact (upright.wellTimed.run timed sound steps).phasesAgree (sound.run steps)

theorem phasesAgree_of_run_pole :
    (Felling.standard : Felling Float32).validate = .ok () ∧
      Scene.pole.Planted Cycle .standard ∧
      (Scene.pole.run [.fell 0 ⟨1, 0, 0⟩, .update 1, .fell 0 ⟨0, 0, 1⟩, .update 2]).PhasesAgree :=
  ⟨rfl, pole_planted, phasesAgree_of_run rfl pole_planted _⟩

end Scene

end Grove
