import Mathlib
import Grove.Proofs.Forest.Kept
import Grove.Proofs.Forest.Tilt

/-!
# Frame rates

In exact arithmetic, and without a limit on the time that a step may take, it makes no difference
into how many steps some time is divided. A fall is clamped in every step, but once clamped it is
over; and slots are always placed anew from the placements they were made with.
-/

set_option autoImplicit false

namespace Grove

variable {σ : Type} [Generator σ]

attribute [ext] Scene Population Animator

/-! ## Two steps as one -/

section

variable {first second : ℝ} (nonnegFirst : 0 ≤ first) (nonnegSecond : 0 ≤ second)

namespace Fall

variable {fall : Fall ℝ} (positive : 0 < fall.durationSecs)

include positive

private theorem fraction_add (first second : ℝ) :
    fall.fraction (first + second) = fall.fraction first + fall.fraction second := by
  simp only [fraction, if_pos positive, add_div]

include nonnegFirst nonnegSecond

/-- What is clamped after the first step would be clamped after both. -/
theorem advance_advance (least : 0 ≤ fall.elapsed) :
    (fall.advance first).advance second = fall.advance (first + second) := by
  have nonneg := fall.fraction_nonneg nonnegFirst
  have further := fall.fraction_nonneg nonnegSecond
  have elapsed : ((fall.advance first).advance second).elapsed =
      (fall.advance (first + second)).elapsed := by
    have same : (fall.advance first).fraction second = fall.fraction second := rfl
    rw [elapsed_advance, elapsed_advance, elapsed_advance, same, fraction_add positive,
      max_eq_right (le_min (add_nonneg least nonneg) zero_le_one)]
    rcases le_total (fall.elapsed + fall.fraction first) 1 with within | beyond
    · rw [min_eq_left within, add_assoc]
    · rw [min_eq_right beyond, min_eq_right (by linarith), min_eq_right (by linarith)]
  exact congrArg (fun elapsed => { fall with elapsed }) elapsed

omit positive nonnegFirst in
private theorem advance_of_isOver (most : fall.elapsed ≤ 1) (isOver : fall.isOver = true) :
    fall.advance second = fall := by
  have ended := le_antisymm most (of_decide_eq_true isOver)
  have further := fall.fraction_nonneg nonnegSecond
  have elapsed : (fall.advance second).elapsed = fall.elapsed := by
    rw [elapsed_advance, ended, min_eq_right (by linarith), max_eq_right zero_le_one]
  exact congrArg (fun elapsed => { fall with elapsed }) elapsed

end Fall

/-- All falls take the time of the felling, and none has been turned back. -/
def Phase.Lasting (felling : Felling ℝ) (phase : Phase ℝ) : Prop :=
  ∀ fall, phase.fall? = some fall → fall.durationSecs = felling.durationSecs ∧ 0 ≤ fall.elapsed

namespace Tree

variable {felling : Felling ℝ} (positive : 0 < felling.durationSecs) {tree : Tree ℝ}
  (lasting : tree.phase.Lasting felling)

include nonnegFirst nonnegSecond positive lasting

theorem advance_advance : (tree.advance first).advance second = tree.advance (first + second) := by
  cases phase : tree.phase with
  | standing => simp [Tree.advance, Phase.advance, phase]
  | felled fall => simp [Tree.advance, Phase.advance, phase]
  | falling fall =>
      obtain ⟨duration, least⟩ := lasting fall (by rw [phase]; rfl)
      have both := Fall.advance_advance nonnegFirst nonnegSecond (duration ▸ positive) least
      simp only [Tree.advance, Phase.advance, phase, ← both]
      cases isOver : (fall.advance first).isOver with
      | true =>
          have still := Fall.advance_of_isOver nonnegSecond (fall.elapsed_advance_mem first).2 isOver
          simp [Fall.phase, isOver, still]
      | false => simp [Fall.phase, isOver]

/-- The slots of a tree are placed by the last step in which it fell. -/
theorem rotated_rotated (content : Slot ℝ) :
    Batch.settled (Stand.rotated ((tree.advance first).rotation? second)
      (Batch.settled (Stand.rotated (tree.rotation? first) content))) =
    Batch.settled (Stand.rotated (tree.rotation? (first + second)) content) := by
  cases phase : tree.phase with
  | standing =>
      simp [Tree.advance, Phase.advance, Tree.rotation?, phase, Stand.rotated, Batch.settled]
  | felled fall =>
      simp [Tree.advance, Phase.advance, Tree.rotation?, phase, Stand.rotated, Batch.settled]
  | falling fall =>
      obtain ⟨duration, least⟩ := lasting fall (by rw [phase]; rfl)
      have both := Fall.advance_advance nonnegFirst nonnegSecond (duration ▸ positive) least
      simp only [Tree.advance, Phase.advance, Tree.rotation?, phase, ← both]
      cases isOver : (fall.advance first).isOver with
      | true =>
          have still := Fall.advance_of_isOver nonnegSecond (fall.elapsed_advance_mem first).2 isOver
          simp [Fall.phase, isOver, still, Stand.rotated, Batch.settled]
      | false => simp [Fall.phase, isOver, Stand.rotated, Batch.settled]

end Tree

namespace Scene

variable {felling : Felling ℝ}

private theorem stepTime_of_nonneg {scene : Scene ℝ}
    (same : scene.population.animator.felling = felling) (unlimited : felling.maxStep = none)
    {time : ℝ} (nonneg : 0 ≤ time) :
    scene.stepTime time = time := by
  rw [stepTime_eq same, Animator.stepTime]
  simp only [unlimited, Exact.max_eq, max_eq_left nonneg]

theorem Upright.lasting {planted : Scene ℝ} (upright : planted.Upright felling)
    (steps : List (ForestStep ℝ)) :
    (planted.run steps).Phases felling (Phase.Lasting felling) := by
  have standing : Phase.Lasting felling .standing := nofun
  refine (upright.phases standing).run ?_ ?_ upright.sound steps
  · intro position reference fall recorded
    cases recorded
    exact ⟨rfl, le_refl _⟩
  · intro fall time lasting reached recorded
    rw [Phase.fall?_phase] at recorded
    cases recorded
    exact ⟨(lasting fall rfl).1, (fall.elapsed_advance_mem _).1⟩

private theorem active_eq_filter {scene : Scene ℝ} (sound : scene.Sound) (time : ℝ) :
    (scene.step (.update time)).population.animator.active =
      scene.population.animator.active.filter fun id =>
        ((scene.step (.update time)).tree? id).any (·.phase.isFalling) := by
  simp only [tree?_update sound, active_update sound]

variable {scene : Scene ℝ} (sound : scene.Sound)
  (phases : scene.Phases felling (Phase.Lasting felling)) (unlimited : felling.maxStep = none)
  (positive : 0 < felling.durationSecs)

include unlimited positive sound phases nonnegFirst nonnegSecond

private theorem tree?_update_update (id : TreeId) :
    ((scene.step (.update first)).step (.update second)).tree? id =
      (scene.step (.update (first + second))).tree? id := by
  have same := (felling_step scene (.update first)).trans phases.1
  rw [tree?_update (sound.step _), tree?_update sound, tree?_update sound,
    stepTime_of_nonneg same unlimited nonnegSecond,
    stepTime_of_nonneg phases.1 unlimited nonnegFirst,
    stepTime_of_nonneg phases.1 unlimited (add_nonneg nonnegFirst nonnegSecond), Option.map_map]
  refine Option.map_congr fun tree found => ?_
  exact tree.advance_advance nonnegFirst nonnegSecond positive (phases.2 id tree found)

private theorem slot?_update_update (category : Category) (slot : Nat) :
    ((scene.step (.update first)).step (.update second)).slot? category slot =
      (scene.step (.update (first + second))).slot? category slot := by
  have same := (felling_step scene (.update first)).trans phases.1
  rw [slot?_update (sound.step _), slot?_update sound, slot?_update sound, Option.map_map]
  congr 1
  funext content
  have owner : (Batch.settled (Stand.rotated (scene.rotation? first content.owner) content)).owner =
      content.owner := Stand.owner_rotated _ content
  rw [Function.comp_apply, owner, rotation?, rotation?, rotation?, tree?_update sound,
    stepTime_of_nonneg same unlimited nonnegSecond,
    stepTime_of_nonneg phases.1 unlimited nonnegFirst,
    stepTime_of_nonneg phases.1 unlimited (add_nonneg nonnegFirst nonnegSecond)]
  cases found : scene.tree? content.owner with
  | none => rfl
  | some tree =>
      exact tree.rotated_rotated nonnegFirst nonnegSecond positive
        (phases.2 content.owner tree found) content

private theorem active_update_update :
    ((scene.step (.update first)).step (.update second)).population.animator.active =
      (scene.step (.update (first + second))).population.animator.active := by
  rw [active_eq_filter (sound.step _), active_eq_filter sound, active_eq_filter sound,
    List.filter_filter]
  refine List.filter_congr fun id _ => ?_
  rw [← tree?_update_update nonnegFirst nonnegSecond sound phases unlimited positive]
  -- What falls after both steps fell after the first.
  rw [Bool.and_eq_left_iff_imp]
  intro falling
  have member := (((sound.step _).step _).mem_active_iff id).mpr
    ((Option.any_eq_true ..).mp falling)
  rw [active_eq_filter (sound.step _)] at member
  exact (Option.any_eq_true ..).mpr
    (((sound.step _).mem_active_iff id).mp (List.mem_of_mem_filter member))

/-- Two steps of a forest are as good as one. -/
theorem update_update {planted : Scene ℝ} (kept : planted.Kept scene) :
    (scene.step (.update first)).step (.update second) =
      scene.step (.update (first + second)) := by
  have twice := (kept.step sound (.update first)).step (sound.step _) (.update second)
  have once := kept.step sound (.update (first + second))
  have slots := slot?_update_update nonnegFirst nonnegSecond sound phases unlimited positive
  have stand := twice.stand_eq once slots
    (tree?_update_update nonnegFirst nonnegSecond sound phases unlimited positive)
  have renderer := twice.renderer_eq once slots ((sound.step _).step _) (sound.step _)
  have active := active_update_update nonnegFirst nonnegSecond sound phases unlimited positive
  have felling := twice.felling.trans once.felling.symm
  exact Scene.ext (Population.ext stand (Animator.ext felling active)) renderer

end Scene

end

namespace Scene

/-- However some time is divided into steps, a forest comes from every state that it can reach to
the same state. -/
theorem run_updates_eq {felling : Felling ℝ} (unlimited : felling.maxStep = none)
    (positive : 0 < felling.durationSecs) {planted : Scene ℝ}
    (start : planted.Planted σ felling) (steps : List (ForestStep ℝ)) {times : List ℝ}
    (some : times ≠ []) (nonneg : ∀ time ∈ times, 0 ≤ time) :
    (planted.run steps).run (times.map .update) =
      (planted.run steps).step (.update times.sum) := by
  have upright := start.upright
  induction times generalizing steps with
  | nil => exact absurd rfl some
  | cons time times induction =>
      have nonnegTime := nonneg time List.mem_cons_self
      have nonnegRest := fun other member => nonneg other (List.mem_cons_of_mem time member)
      cases times with
      | nil => simp [run]
      | cons next times =>
          have rest := induction (steps ++ [.update time]) (List.cons_ne_nil _ _) nonnegRest
          rw [run_concat] at rest
          rw [List.sum_cons, ← update_update nonnegTime (List.sum_nonneg nonnegRest)
            (upright.sound.run steps) (upright.lasting steps) unlimited positive
            (start.kept.run upright.sound steps)]
          exact rest

theorem run_updates_eq_broadleaf :
    ∃ planted : Scene ℝ, planted.Planted Cycle .standard ∧
      (Felling.standard : Felling ℝ).maxStep = none ∧
      0 < (Felling.standard : Felling ℝ).durationSecs ∧
      (∀ id < 2, ∃ tree, planted.tree? id = some tree ∧ tree.phase = .standing) ∧
      (planted.run [.fell 0 ⟨1, 0, 0⟩, .update 1, .fell 1 ⟨0, 0, 1⟩]).run
          ([0.5, 0, 1.5].map .update) =
        (planted.run [.fell 0 ⟨1, 0, 0⟩, .update 1, .fell 1 ⟨0, 0, 1⟩]).step
          (.update [0.5, 0, 1.5].sum) := by
  have positive : 0 < (Felling.standard : Felling ℝ).durationSecs := by
    norm_num [Felling.standard]
  obtain ⟨planted, start, trees⟩ := Population.exists_planted (Species.drawable_exact .broadleaf)
    [⟨0, 0, 0⟩, ⟨5, 0, 0⟩] .standard (⟨#[0], 0⟩ : Cycle)
  exact ⟨planted, start, rfl, positive, trees,
    run_updates_eq rfl positive start _ (List.cons_ne_nil _ _) (by norm_num)⟩

end Scene

end Grove
