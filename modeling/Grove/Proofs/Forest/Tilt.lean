import Grove.Proofs.Exact.Planting
import Grove.Proofs.Forest.Progress
import Grove.Proofs.Forest.Rows

/-!
# Tilts of falling trees

In exact arithmetic the tilt of a tree never decreases. From the beginning of the fall it lies
between upright and the final tilt of the fall, and a felled tree has exactly its final tilt. With
what is known of phases in single precision, this says what a run makes of a tree.
-/

set_option autoImplicit false

namespace Grove

variable {σ : Type} [Generator σ]

instance : Scalar.Chained ℝ where
  trans := le_trans
  self _ := le_refl _

namespace Fall

theorem elapsed_advance (fall : Fall ℝ) (time : ℝ) :
    (fall.advance time).elapsed = max 0 (min (fall.elapsed + fall.fraction time) 1) :=
  Exact.clamp_eq zero_le_one _

theorem fraction_nonneg (fall : Fall ℝ) {time : ℝ} (nonneg : 0 ≤ time) :
    0 ≤ fall.fraction time := by
  unfold fraction
  split
  · rename_i positive
    exact div_nonneg nonneg positive.le
  · exact zero_le_one

private theorem le_elapsed_advance {fall : Fall ℝ} (within : fall.elapsed ≤ 1) {time : ℝ}
    (nonneg : 0 ≤ time) : fall.elapsed ≤ (fall.advance time).elapsed := by
  have fraction := fall.fraction_nonneg nonneg
  rw [elapsed_advance]
  exact le_max_of_le_right (le_min (by linarith) within)

theorem elapsed_advance_mem (fall : Fall ℝ) (time : ℝ) :
    0 ≤ (fall.advance time).elapsed ∧ (fall.advance time).elapsed ≤ 1 := by
  rw [elapsed_advance]
  exact ⟨le_max_left _ _, max_le zero_le_one (min_le_right _ _)⟩

/-! ## The course of a fall -/

private theorem course_eq {fraction : ℝ} (least : 0 ≤ fraction) (most : fraction ≤ 1) :
    course fraction = 1 - (1 - fraction) ^ 3 := by
  unfold course
  dsimp only
  rw [Exact.clamp_eq zero_le_one, min_eq_left most, max_eq_right least]
  ring

private theorem course_one : course (1 : ℝ) = 1 := by
  rw [course_eq zero_le_one le_rfl]
  norm_num

private theorem course_mono {earlier later : ℝ} (least : 0 ≤ earlier) (ordered : earlier ≤ later)
    (most : later ≤ 1) : course earlier ≤ course later := by
  rw [course_eq least (ordered.trans most), course_eq (least.trans ordered) most]
  have cubes : (1 - later) ^ 3 ≤ (1 - earlier) ^ 3 :=
    pow_le_pow_left₀ (sub_nonneg.mpr most) (by linarith) 3
  linarith

private theorem course_mem {fraction : ℝ} (least : 0 ≤ fraction) (most : fraction ≤ 1) :
    0 ≤ course fraction ∧ course fraction ≤ 1 := by
  rw [course_eq least most]
  have cube : 0 ≤ (1 - fraction) ^ 3 := pow_nonneg (sub_nonneg.mpr most) 3
  have small : (1 - fraction) ^ 3 ≤ 1 := pow_le_one₀ (sub_nonneg.mpr most) (by linarith)
  constructor <;> linarith

end Fall

/-- A fall that has come some part of its way to a tilt that is not negative. -/
structure Fall.Measured (fall : Fall ℝ) : Prop where
  least : 0 ≤ fall.elapsed
  most : fall.elapsed ≤ 1
  finalAngle : 0 ≤ fall.finalAngle

/-- All falls are measured, and those that are over have come all of their way. -/
structure Phase.Measured (phase : Phase ℝ) : Prop where
  fall : ∀ fall, phase.fall? = some fall → fall.Measured
  felled : ∀ fall, phase = .felled fall → fall.elapsed = 1

namespace Fall.Measured

private theorem start {felling : Felling ℝ} (angle : 0 ≤ felling.finalAngle)
    (position reference : Vec3 ℝ) : (Fall.start felling position reference).Measured :=
  ⟨le_refl _, zero_le_one, angle⟩

private theorem advance {fall : Fall ℝ} (measured : fall.Measured) (time : ℝ) :
    (fall.advance time).phase.Measured := by
  obtain ⟨least, most⟩ := fall.elapsed_advance_mem time
  refine ⟨?_, ?_⟩
  · intro reached recorded
    rw [Phase.fall?_phase] at recorded
    cases recorded
    exact ⟨least, most, measured.finalAngle⟩
  · intro ended lies
    unfold Fall.phase at lies
    split at lies
    · rename_i isOver
      cases lies
      exact le_antisymm most (of_decide_eq_true isOver)
    · cases lies

private theorem angle_mem {fall : Fall ℝ} (measured : fall.Measured) :
    0 ≤ fall.angle ∧ fall.angle ≤ fall.finalAngle := by
  obtain ⟨least, most⟩ := Fall.course_mem measured.least measured.most
  exact ⟨mul_nonneg least measured.finalAngle, mul_le_of_le_one_left measured.finalAngle most⟩

private theorem angle_mono {fall later : Fall ℝ} (measured : fall.Measured)
    (reached : later.Measured) (continues : fall.Continues later) : fall.angle ≤ later.angle := by
  unfold Fall.angle
  rw [continues.finalAngle]
  exact mul_le_mul_of_nonneg_right
    (Fall.course_mono measured.least continues.elapsed reached.most) measured.finalAngle

end Fall.Measured

theorem Felling.finalAngle_nonneg {felling : Felling ℝ} (valid : felling.validate = .ok ()) :
    0 ≤ felling.finalAngle := by
  have target := (felling.validate_eq_ok_iff.mp valid).targetFraction.2
  exact mul_nonneg (not_lt.mp target) (div_nonneg Real.pi_pos.le (by norm_num))

theorem Tree.tilt_of_fall {tree : Tree ℝ} {fall : Fall ℝ} (recorded : tree.phase.fall? = some fall) :
    tree.tilt = fall.angle := by
  unfold Tree.tilt
  rw [recorded]

theorem Tree.tilt_of_standing {tree : Tree ℝ} (standing : tree.phase = .standing) :
    tree.tilt = 0 := by
  unfold Tree.tilt
  rw [standing]
  rfl

namespace Scene

private theorem onward_of_measured {scene : Scene ℝ}
    (measured : ∀ id tree, scene.tree? id = some tree → tree.phase.Measured) : scene.Onward := by
  intro id tree fall time found falling
  have recorded : tree.phase.fall? = some fall := by rw [falling]; rfl
  refine Fall.le_elapsed_advance ((measured id tree found).fall fall recorded).most ?_
  unfold Scene.stepTime Animator.stepTime
  rw [Exact.max_eq]
  exact le_max_right _ _

theorem Upright.measured {felling : Felling ℝ} {planted : Scene ℝ}
    (upright : planted.Upright felling) (valid : felling.validate = .ok ()) (steps : List (ForestStep ℝ)) :
    (planted.run steps).Phases felling Phase.Measured := by
  have standing : Phase.Measured .standing := ⟨nofun, nofun⟩
  refine (upright.phases standing).run ?_ ?_ upright.sound steps
  · intro position reference
    have measured := Fall.Measured.start (Felling.finalAngle_nonneg valid) position reference
    exact ⟨fun fall recorded => Option.some.inj recorded ▸ measured, nofun⟩
  · exact fun fall time measured => (measured.fall fall rfl).advance _

/-- What has become of a tree, in single precision, after further steps. -/
structure MovesOn (planted : Scene Float32) (earlier later : List (ForestStep Float32))
    (id : TreeId) (tree : Tree Float32) : Prop where
  step : ∀ step, ∃ next, (planted.run (earlier ++ [step])).tree? id = some next ∧
    tree.phase.Next next.phase
  run : ∃ after, (planted.run (earlier ++ later)).tree? id = some after ∧
    tree.phase.Leads after.phase
  felled : tree.phase.isFelled = true →
    Unmoved (planted.run earlier) (planted.run (earlier ++ later)) id

/-- How far a tree is tilted, in exact arithmetic, after further steps. -/
structure TiltsOn (tree after : Tree ℝ) : Prop where
  increases : tree.tilt ≤ after.tilt
  within : ∀ fall, after.phase.fall? = some fall → 0 ≤ after.tilt ∧ after.tilt ≤ fall.finalAngle
  felled : ∀ fall, after.phase = .felled fall → after.tilt = fall.finalAngle

theorem Upright.movesOn {felling : Felling Float32} {planted : Scene Float32}
    (upright : planted.Upright felling) (timed : felling.Timed)
    (earlier later : List (ForestStep Float32)) {id : TreeId} {tree : Tree Float32}
    (found : (planted.run earlier).tree? id = some tree) :
    MovesOn planted earlier later id tree := by
  have sound := upright.sound.run earlier
  have wellTimed := upright.wellTimed.run timed upright.sound earlier
  refine ⟨fun step => ?_, ?_, fun felled => ?_⟩
  · rw [run_concat]
    exact next_step sound (wellTimed.onward timed) step found
  · rw [run_append]
    exact leads_run sound (fun steps => (wellTimed.run timed sound steps).onward timed) later found
  · rw [run_append]
    exact unmoved_run sound later found felled

private theorem tiltsOn_of_leads {tree after : Tree ℝ} (measured : tree.phase.Measured)
    (reached : after.phase.Measured) (leads : tree.phase.Leads after.phase) :
    TiltsOn tree after where
  increases := by
    cases phase : tree.phase with
    | standing =>
        rw [Tree.tilt_of_standing phase]
        cases recorded : after.phase.fall? with
        | none => simp [Tree.tilt, recorded]
        | some fall =>
            rw [Tree.tilt_of_fall recorded]
            exact (reached.fall fall recorded).angle_mem.1
    | falling fall =>
        rw [phase] at leads
        obtain ⟨continued, recorded, continues⟩ := leads
        have began : tree.phase.fall? = some fall := by rw [phase]; rfl
        rw [Tree.tilt_of_fall began, Tree.tilt_of_fall recorded]
        exact (measured.fall fall began).angle_mono (reached.fall continued recorded) continues
    | felled fall =>
        rw [phase] at leads
        have same : after.phase = tree.phase := leads.trans phase.symm
        simp [Tree.tilt, same]
  within fall recorded := by
    rw [Tree.tilt_of_fall recorded]
    exact (reached.fall fall recorded).angle_mem
  felled fall felled := by
    have recorded : after.phase.fall? = some fall := by rw [felled]; rfl
    rw [Tree.tilt_of_fall recorded, Fall.angle, reached.felled fall felled, Fall.course_one,
      one_mul]

theorem Upright.tiltsOn {felling : Felling ℝ} {planted : Scene ℝ}
    (upright : planted.Upright felling) (valid : felling.validate = .ok ())
    (earlier later : List (ForestStep ℝ)) {id : TreeId} {tree : Tree ℝ}
    (found : (planted.run earlier).tree? id = some tree) :
    ∃ after, (planted.run (earlier ++ later)).tree? id = some after ∧ TiltsOn tree after := by
  have measured := upright.measured valid
  have onward : ∀ steps, ((planted.run earlier).run steps).Onward := by
    intro steps
    rw [← run_append]
    exact onward_of_measured (measured (earlier ++ steps)).2
  obtain ⟨after, reached, leads⟩ := leads_run (upright.sound.run earlier) onward later found
  rw [← run_append] at reached
  exact ⟨after, reached, tiltsOn_of_leads ((measured earlier).2 id tree found)
    ((measured (earlier ++ later)).2 id after reached) leads⟩

/-- In every run of a planted forest with a valid felling, trees only move on: their phases do in
single precision, and their tilts increase up to the final tilt in exact arithmetic. -/
theorem movesOn_of_run :
    (∀ (felling : Felling Float32) (planted : Scene Float32), felling.validate = .ok () →
      planted.Planted σ felling → ∀ earlier later id tree,
        (planted.run earlier).tree? id = some tree → MovesOn planted earlier later id tree) ∧
    ∀ (felling : Felling ℝ) (planted : Scene ℝ), felling.validate = .ok () →
      planted.Planted σ felling → ∀ earlier later id tree,
        (planted.run earlier).tree? id = some tree →
          ∃ after, (planted.run (earlier ++ later)).tree? id = some after ∧ TiltsOn tree after :=
  ⟨fun _ _ valid start earlier later _ _ found =>
      start.upright.movesOn (Felling.timed_of_validate valid) earlier later found,
    fun _ _ valid start earlier later _ _ found =>
      start.upright.tiltsOn valid earlier later found⟩

private theorem validate_standard_exact : (Felling.standard : Felling ℝ).validate = .ok () := by
  rw [Felling.validate_eq_ok_iff]
  refine ⟨⟨rfl, ?_⟩, ⟨rfl, ?_⟩, nofun⟩ <;> norm_num [Felling.standard]

theorem movesOn_of_run_broadleaf :
    ∃ single : Scene Float32, single.Planted Cycle .standard ∧
      (∃ tree, (single.run [.fell 0 ⟨1, 0, 0⟩]).tree? 0 = some tree ∧
        MovesOn single [.fell 0 ⟨1, 0, 0⟩] [.update 1, .update 2] 0 tree) ∧
      ∃ exact : Scene ℝ, exact.Planted Cycle .standard ∧
        ∃ tree after, (exact.run []).tree? 0 = some tree ∧
          (exact.run [.fell 0 ⟨1, 0, 0⟩, .update 2]).tree? 0 = some after ∧
          TiltsOn tree after := by
  obtain ⟨moves, tilts⟩ := @movesOn_of_run Cycle _
  obtain ⟨single, start, trees⟩ :=
    Population.exists_planted Species.drawable_broadleaf [⟨0, 0, 0⟩] .standard (⟨#[0], 0⟩ : Cycle)
  obtain ⟨tree, found, -⟩ := trees 0 Nat.one_pos
  obtain ⟨falling, began, -⟩ :=
    (moves .standard single rfl start [] [] 0 tree found).step (.fell 0 ⟨1, 0, 0⟩)
  obtain ⟨exact, planted, exactTrees⟩ := Population.exists_planted
    (Species.drawable_exact .broadleaf) [⟨0, 0, 0⟩] .standard (⟨#[0], 0⟩ : Cycle)
  obtain ⟨exactTree, known, -⟩ := exactTrees 0 Nat.one_pos
  obtain ⟨after, reached, tilted⟩ := tilts .standard exact validate_standard_exact planted []
    [.fell 0 ⟨1, 0, 0⟩, .update 2] 0 exactTree known
  exact ⟨single, start, ⟨falling, began, moves .standard single rfl start _ _ 0 falling began⟩,
    exact, planted, exactTree, after, known, reached, tilted⟩

end Scene

end Grove
