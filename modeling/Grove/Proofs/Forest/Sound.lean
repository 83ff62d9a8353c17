import Mathlib.Data.List.Induction
import Grove.Proofs.Forest.Scene

/-!
# Sound scenes

In every scene that can be reached the list of falling trees and the phases agree, the registry is
built, and the renderer holds the placement of every slot. A step is then described tree by tree and
slot by slot: only trees that fall, and their slots, are touched.
-/

set_option autoImplicit false

namespace Grove

variable {α σ : Type} [Scalar α] [Generator σ]

/-- The records of a scene agree. -/
structure Scene.Sound (scene : Scene α) : Prop where
  ids : ∀ id tree, scene.tree? id = some tree → tree.id = id
  active_nodup : scene.population.animator.active.Nodup
  /-- The animator knows the trees that fall. -/
  mem_active_iff : ∀ id, id ∈ scene.population.animator.active ↔
    ∃ tree, scene.tree? id = some tree ∧ tree.phase.isFalling = true
  built : scene.population.registry.Built scene.renderer
  shown : ∀ category slot content, scene.slot? category slot = some content →
    scene.uploaded? category slot = some content.live

namespace Population

theorem fell_of_standing {population : Population α} {id : TreeId} {tree : Tree α}
    (found : population.stand.tree? id = some tree) (standing : tree.phase = .standing)
    (reference : Vec3 α) :
    population.fell id reference =
      (true,
        { stand := population.stand.setPhase id
            (.falling (.start population.animator.felling tree.position reference))
          animator :=
            { population.animator with active := population.animator.active ++ [tree.id] } }) := by
  unfold fell tree?
  rw [found]
  dsimp only
  unfold Animator.start?
  rw [standing]
  rfl

theorem fell_of_not_standing {population : Population α} {id : TreeId}
    (down : ∀ tree, population.stand.tree? id = some tree → tree.phase ≠ .standing)
    (reference : Vec3 α) : population.fell id reference = (false, population) := by
  unfold fell tree?
  cases found : population.stand.tree? id with
  | none => rfl
  | some tree =>
      have notStanding : ¬ tree.phase.isStanding = true :=
        fun standing => down tree found (Phase.isStanding_eq_true_iff.mp standing)
      dsimp only
      unfold Animator.start?
      rw [if_neg notStanding]

omit [Scalar α] in
theorem standing_or_not (population : Population α) (id : TreeId) :
    (∃ tree, population.stand.tree? id = some tree ∧ tree.phase = .standing) ∨
    ∀ tree, population.stand.tree? id = some tree → tree.phase ≠ .standing := by
  rcases Classical.em (∃ tree, population.stand.tree? id = some tree ∧ tree.phase = .standing)
    with standing | down
  · exact .inl standing
  · exact .inr fun tree found standing => down ⟨tree, found, standing⟩

theorem fell_eq_true_iff (population : Population α) (id : TreeId) (reference : Vec3 α) :
    (population.fell id reference).1 = true ↔
      ∃ tree, population.stand.tree? id = some tree ∧ tree.phase = .standing := by
  rcases population.standing_or_not id with ⟨tree, found, standing⟩ | down
  · rw [fell_of_standing found standing]
    exact iff_of_true rfl ⟨tree, found, standing⟩
  · rw [fell_of_not_standing down]
    exact iff_of_false Bool.false_ne_true fun ⟨tree, found, standing⟩ => down tree found standing

end Population

namespace Scene

/-- The time that a step takes in a scene. -/
def stepTime (scene : Scene α) (time : α) : α :=
  scene.population.animator.stepTime time

/-- The trees that still fall after a step, and the stand before it is flushed. -/
def advanced (scene : Scene α) (time : α) : List TreeId × Stand α :=
  scene.population.stand.advanceTrees (scene.stepTime time) scene.population.animator.active

theorem step_update (scene : Scene α) (time : α) :
    scene.step (.update time) =
      { population :=
          { stand :=
              { (scene.advanced time).2 with
                registry := ((scene.advanced time).2.registry.flush scene.renderer).2.1 }
            animator := { scene.population.animator with active := (scene.advanced time).1 } }
        renderer := ((scene.advanced time).2.registry.flush scene.renderer).2.2 } := by
  obtain ⟨⟨stand, felling, active⟩, renderer⟩ := scene
  cases active <;> rfl

omit [Scalar α] in
theorem Sound.not_falling {scene : Scene α} (sound : scene.Sound) {id : TreeId}
    (idle : id ∉ scene.population.animator.active) {tree : Tree α}
    (found : scene.tree? id = some tree) : tree.phase.isFalling = false := by
  rw [← Bool.not_eq_true]
  intro falling
  exact idle ((sound.mem_active_iff id).mpr ⟨tree, found, falling⟩)

theorem tree?_update {scene : Scene α} (sound : scene.Sound) (time : α) (id : TreeId) :
    (scene.step (.update time)).tree? id =
      (scene.tree? id).map (·.advance (scene.stepTime time)) := by
  rw [step_update]
  change (scene.advanced time).2.tree? id = _
  unfold advanced
  rw [Stand.tree?_advanceTrees _ _ sound.active_nodup]
  split
  · rfl
  · rename_i idle
    change scene.tree? id = _
    cases found : scene.tree? id with
    | none => rfl
    | some tree =>
        rw [Option.map_some, Stand.advance_of_not_falling (sound.not_falling idle found)]

/-- The rotation by which an update places the slots of a tree anew. -/
def rotation? (scene : Scene α) (time : α) (id : TreeId) : Option (Mat4 α) :=
  (scene.tree? id).bind (·.rotation? (scene.stepTime time))

theorem rotation?_eq {scene : Scene α} (sound : scene.Sound) (time : α) (id : TreeId) :
    scene.population.stand.rotation? (scene.stepTime time) scene.population.animator.active id =
      scene.rotation? time id := by
  unfold Stand.rotation? rotation?
  split
  · rfl
  · rename_i idle
    cases found : scene.tree? id with
    | none => rfl
    | some tree => exact (Stand.rotation?_of_not_falling (sound.not_falling idle found) _).symm

theorem advanced_built {scene : Scene α} (sound : scene.Sound) (time : α) :
    (scene.advanced time).2.registry.Built scene.renderer :=
  Stand.advanceTrees_built sound.built _ _

/-- A slot after an update: placed anew if its tree falls, and flushed. -/
theorem slot?_update {scene : Scene α} (sound : scene.Sound) (time : α) (category : Category)
    (slot : Nat) :
    (scene.step (.update time)).slot? category slot =
      (scene.slot? category slot).map fun content =>
        Batch.settled (Stand.rotated (scene.rotation? time content.owner) content) := by
  have moved := Stand.slot?_advanceTrees sound.built (scene.stepTime time) sound.active_nodup
    category slot
  rw [step_update]
  change ((scene.advanced time).2.registry.flush scene.renderer).2.1.slot? category slot = _
  rw [Registry.slot?_flush (advanced_built sound time).consistent]
  unfold advanced
  rw [moved, Option.map_map]
  congr 1
  funext content
  change Batch.settled (Stand.rotated _ content) = _
  rw [rotation?_eq sound]

theorem active_update {scene : Scene α} (sound : scene.Sound) (time : α) :
    (scene.step (.update time)).population.animator.active =
      scene.population.animator.active.filter fun id =>
        ((scene.tree? id).map (·.advance (scene.stepTime time))).any (·.phase.isFalling) := by
  rw [step_update]
  exact Stand.advanceTrees_falling _ _ sound.active_nodup

theorem Sound.update {scene : Scene α} (sound : scene.Sound) (time : α) :
    (scene.step (.update time)).Sound where
  ids id tree found := by
    rw [tree?_update sound] at found
    obtain ⟨old, known, rfl⟩ := Option.map_eq_some_iff.mp found
    exact sound.ids id old known
  active_nodup := by
    rw [active_update sound]
    exact sound.active_nodup.filter _
  mem_active_iff id := by
    rw [active_update sound, List.mem_filter, tree?_update sound]
    constructor
    · rintro ⟨-, falling⟩
      exact (Option.any_eq_true ..).mp falling
    · rintro ⟨tree, found, falling⟩
      refine ⟨?_, (Option.any_eq_true ..).mpr ⟨tree, found, falling⟩⟩
      obtain ⟨old, known, rfl⟩ := Option.map_eq_some_iff.mp found
      refine (sound.mem_active_iff id).mpr ⟨old, known, ?_⟩
      -- What falls after the step fell before it.
      rw [← Bool.not_eq_false]
      intro still
      rw [Stand.advance_of_not_falling still, still] at falling
      cases falling
  built := by
    rw [step_update]
    exact (advanced_built sound time).flush
  shown category slot content found := by
    have built := advanced_built sound time
    have flushed := Registry.slot?_flush built.consistent scene.renderer category slot
    rw [step_update] at found ⊢
    obtain ⟨old, known, rfl⟩ := Option.map_eq_some_iff.mp (flushed.symm.trans found)
    have held := built.uploaded?_flush known
    exact held

theorem step_fell_of_standing {scene : Scene α} {id : TreeId} {tree : Tree α}
    (found : scene.tree? id = some tree) (standing : tree.phase = .standing)
    (reference : Vec3 α) :
    scene.step (.fell id reference) =
      { scene with
        population :=
          { stand := scene.population.stand.setPhase id
              (.falling (.start scene.population.animator.felling tree.position reference))
            animator :=
              { scene.population.animator with
                active := scene.population.animator.active ++ [tree.id] } } } := by
  change ({ scene with population := (scene.population.fell id reference).2 } : Scene α) = _
  rw [Population.fell_of_standing found standing]

theorem step_fell_of_not_standing {scene : Scene α} {id : TreeId}
    (down : ∀ tree, scene.tree? id = some tree → tree.phase ≠ .standing) (reference : Vec3 α) :
    scene.step (.fell id reference) = scene := by
  change ({ scene with population := (scene.population.fell id reference).2 } : Scene α) = _
  rw [Population.fell_of_not_standing down]

theorem tree?_fell_of_standing {scene : Scene α} {id : TreeId} {tree : Tree α}
    (found : scene.tree? id = some tree) (standing : tree.phase = .standing)
    (reference : Vec3 α) (other : TreeId) :
    (scene.step (.fell id reference)).tree? other =
      if id = other then
        some { tree with
          phase := .falling (.start scene.population.animator.felling tree.position reference) }
      else scene.tree? other := by
  rw [step_fell_of_standing found standing]
  change (scene.population.stand.setPhase id _).tree? other = _
  rw [Stand.tree?_setPhase]
  split
  · rename_i same
    subst same
    change (scene.tree? id).map _ = _
    rw [found]
    rfl
  · rfl

theorem slot?_fell (scene : Scene α) (id : TreeId) (reference : Vec3 α) (category : Category)
    (slot : Nat) :
    (scene.step (.fell id reference)).slot? category slot = scene.slot? category slot := by
  rcases scene.population.standing_or_not id with ⟨tree, found, standing⟩ | down
  · rw [step_fell_of_standing found standing]
    rfl
  · rw [step_fell_of_not_standing down]

theorem Sound.fell {scene : Scene α} (sound : scene.Sound) (id : TreeId) (reference : Vec3 α) :
    (scene.step (.fell id reference)).Sound := by
  rcases scene.population.standing_or_not id with ⟨tree, found, standing⟩ | down
  · have same : tree.id = id := sound.ids id tree found
    have trees := tree?_fell_of_standing found standing reference
    have active : (scene.step (.fell id reference)).population.animator.active =
        scene.population.animator.active ++ [id] := by
      rw [step_fell_of_standing found standing, same]
    have fresh : id ∉ scene.population.animator.active := by
      intro member
      obtain ⟨other, known, falling⟩ := (sound.mem_active_iff id).mp member
      cases found.symm.trans known
      rw [standing] at falling
      cases falling
    refine ⟨?_, ?_, ?_, ?_, ?_⟩
    · intro other after known
      rw [trees] at known
      split at known
      · rename_i isFelled
        cases known
        exact same.trans isFelled
      · exact sound.ids other after known
    · rw [active, List.nodup_append]
      refine ⟨sound.active_nodup, by simp, ?_⟩
      intro earlier member last isLast equal
      rw [List.mem_singleton.mp isLast] at equal
      exact fresh (equal ▸ member)
    · intro other
      rw [active, List.mem_append, List.mem_singleton, trees]
      split
      · rename_i isFelled
        exact iff_of_true (.inr isFelled.symm) ⟨_, rfl, rfl⟩
      · rename_i different
        rw [sound.mem_active_iff]
        constructor
        · rintro (falling | isFelled)
          · exact falling
          · exact absurd isFelled.symm different
        · exact .inl
    · rw [step_fell_of_standing found standing]
      exact sound.built
    · rw [step_fell_of_standing found standing]
      exact sound.shown
  · rw [step_fell_of_not_standing down]
    exact sound

theorem Sound.step {scene : Scene α} (sound : scene.Sound) (step : ForestStep α) :
    (scene.step step).Sound := by
  cases step with
  | fell id reference => exact sound.fell id reference
  | update time => exact sound.update time

theorem Sound.run {scene : Scene α} (sound : scene.Sound) (steps : List (ForestStep α)) :
    (scene.run steps).Sound := by
  induction steps generalizing scene with
  | nil => exact sound
  | cons step steps induction => exact induction (sound.step step)

omit [Scalar α] in
theorem Upright.sound {scene : Scene α} {felling : Felling α} (upright : scene.Upright felling) :
    scene.Sound where
  ids id tree found := (upright.stand.trees id tree found).1
  active_nodup := by
    rw [upright.animator]
    exact List.nodup_nil
  mem_active_iff id := by
    rw [upright.animator]
    constructor
    · intro member
      cases member
    · rintro ⟨tree, found, falling⟩
      rw [(upright.stand.trees id tree found).2] at falling
      cases falling
  built := upright.built
  shown := upright.shown

theorem run_concat (scene : Scene α) (steps : List (ForestStep α)) (step : ForestStep α) :
    scene.run (steps ++ [step]) = (scene.run steps).step step :=
  scene.run_append steps [step]

/-! ## Phases along a run -/

/-- The time of a step depends on the felling alone. -/
theorem stepTime_eq {scene : Scene α} {felling : Felling α}
    (same : scene.population.animator.felling = felling) (time : α) :
    scene.stepTime time = ({ felling } : Animator α).stepTime time := by
  unfold Scene.stepTime Animator.stepTime
  rw [same]

theorem felling_step (scene : Scene α) (step : ForestStep α) :
    (scene.step step).population.animator.felling = scene.population.animator.felling := by
  cases step with
  | update time => rw [step_update]
  | fell id reference =>
      rcases scene.population.standing_or_not id with ⟨tree, found, standing⟩ | down
      · rw [step_fell_of_standing found standing]
      · rw [step_fell_of_not_standing down]

/-- What the phase of every tree satisfies. -/
def Phases (scene : Scene α) (felling : Felling α) (good : Phase α → Prop) : Prop :=
  scene.population.animator.felling = felling ∧
    ∀ id tree, scene.tree? id = some tree → good tree.phase

omit [Scalar α] in
theorem Upright.phases {scene : Scene α} {felling : Felling α} (upright : scene.Upright felling)
    {good : Phase α → Prop} (standing : good .standing) : scene.Phases felling good := by
  refine ⟨by rw [upright.animator], fun id tree found => ?_⟩
  rw [(upright.stand.trees id tree found).2]
  exact standing

section

variable {felling : Felling α} {good : Phase α → Prop}
  (begins : ∀ position reference, good (.falling (.start felling position reference)))
  (goesOn : ∀ fall time, good (.falling fall) →
    good (fall.advance (({ felling } : Animator α).stepTime time)).phase)

include begins goesOn

theorem Phases.step {scene : Scene α} (phases : scene.Phases felling good) (sound : scene.Sound)
    (step : ForestStep α) : (scene.step step).Phases felling good := by
  refine ⟨(felling_step scene step).trans phases.1, ?_⟩
  intro id tree found
  cases step with
  | update time =>
      rw [tree?_update sound, stepTime_eq phases.1] at found
      obtain ⟨old, known, rfl⟩ := Option.map_eq_some_iff.mp found
      have before := phases.2 id old known
      change good (old.phase.advance _)
      cases phase : old.phase with
      | standing => rwa [phase] at before
      | falling fall =>
          rw [phase] at before
          exact goesOn fall time before
      | felled fall => rwa [phase] at before
  | fell felled reference =>
      rcases scene.population.standing_or_not felled with ⟨upright, known, standing⟩ | down
      · rw [tree?_fell_of_standing known standing, phases.1] at found
        split at found
        · cases found
          exact begins _ _
        · exact phases.2 id tree found
      · rw [step_fell_of_not_standing down] at found
        exact phases.2 id tree found

/-- What beginning falls satisfy and steps of falls keep, the phases of a whole run satisfy. -/
theorem Phases.run {scene : Scene α} (phases : scene.Phases felling good) (sound : scene.Sound)
    (steps : List (ForestStep α)) : (scene.run steps).Phases felling good := by
  induction steps generalizing scene with
  | nil => exact phases
  | cons step steps induction =>
      exact induction (phases.step begins goesOn sound step) (sound.step step)

end

end Scene

end Grove
