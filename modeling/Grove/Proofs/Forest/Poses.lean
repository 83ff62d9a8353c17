import Grove.Proofs.Forest.Sound

/-!
# Placements of slots

However often its tree has moved, a slot is placed by one rotation of the placement it was made
with: the rotation of the present fall of its tree. Only between the beginning of a fall and the
first step after it, and while the tree stands, is the slot where it was made.
-/

set_option autoImplicit false

namespace Grove

variable {α σ : Type} [Scalar α] [Generator σ]

omit [Scalar α] in
def ForestStep.isUpdate : ForestStep α → Bool
  | .fell _ _ => false
  | .update _ => true

namespace Scene

/-- In a run from the planted scene the fall of a tree began, and `later` has happened since. -/
def FallBegan (planted : Scene α) (steps : List (ForestStep α)) (id : TreeId)
    (later : List (ForestStep α)) : Prop :=
  ∃ earlier reference, steps = earlier ++ .fell id reference :: later ∧
    ((planted.run earlier).population.fell id reference).1 = true

private theorem not_fallBegan_nil (planted : Scene α) (id : TreeId) (later : List (ForestStep α)) :
    ¬ FallBegan planted [] id later := by
  rintro ⟨earlier, reference, steps, -⟩
  simp at steps

private theorem fallBegan_concat_iff {planted : Scene α} {steps : List (ForestStep α)}
    {step : ForestStep α} {id : TreeId} {later : List (ForestStep α)} :
    FallBegan planted (steps ++ [step]) id later ↔
      (later = [] ∧ ∃ reference, step = .fell id reference ∧
        ((planted.run steps).population.fell id reference).1 = true) ∨
      ∃ before, later = before ++ [step] ∧ FallBegan planted steps id before := by
  constructor
  · rintro ⟨earlier, reference, split, began⟩
    rcases List.eq_nil_or_concat later with rfl | ⟨before, last, rfl⟩
    · obtain ⟨rfl, same⟩ := List.append_inj' split rfl
      exact .inl ⟨rfl, reference, List.singleton_inj.mp same, began⟩
    · rw [List.concat_eq_append] at split ⊢
      rw [← List.cons_append, ← List.append_assoc] at split
      obtain ⟨rfl, same⟩ := List.append_inj' split rfl
      rw [List.singleton_inj.mp same]
      exact .inr ⟨before, rfl, earlier, reference, rfl, began⟩
  · rintro (⟨rfl, reference, rfl, began⟩ | ⟨before, rfl, earlier, reference, rfl, began⟩)
    · exact ⟨steps, reference, rfl, began⟩
    · exact ⟨earlier, reference, by simp, began⟩

/-- What the steps so far say about the phase of a tree. -/
structure Told (planted : Scene α) (steps : List (ForestStep α)) (id : TreeId)
    (phase : Phase α) : Prop where
  standing_iff : phase = .standing ↔ ∀ later, ¬ FallBegan planted steps id later
  /-- A tree begins to fall only once. -/
  once : ∀ later other, FallBegan planted steps id later → FallBegan planted steps id other →
    later = other
  /-- A fall goes on at least until time passes. -/
  fresh : ∀ later, FallBegan planted steps id later → later.any ForestStep.isUpdate = false →
    phase.isFalling = true

/-- Where the steps so far put a slot of a tree. -/
structure Posed (planted : Scene α) (steps : List (ForestStep α)) (tree : Tree α)
    (content : Slot α) : Prop where
  standing : tree.phase = .standing → content.live = content.base
  fresh : ∀ later, FallBegan planted steps content.owner later →
    later.any ForestStep.isUpdate = false → content.live = content.base
  moved : ∀ later, FallBegan planted steps content.owner later →
    later.any ForestStep.isUpdate = true →
      ∃ fall, tree.phase.fall? = some fall ∧
        content.live = Mat4.rotationAbout tree.position fall.axis fall.angle * content.base

/-- The phases and the placements of a scene are those that the steps so far tell. -/
structure Traced (planted : Scene α) (steps : List (ForestStep α)) : Prop where
  told : ∀ id tree, (planted.run steps).tree? id = some tree → Told planted steps id tree.phase
  posed : ∀ category slot content tree,
    (planted.run steps).slot? category slot = some content →
    (planted.run steps).tree? content.owner = some tree → Posed planted steps tree content

theorem Upright.traced {planted : Scene α} {felling : Felling α}
    (upright : planted.Upright felling) : Traced planted [] where
  told id tree found := by
    refine ⟨?_, ?_, ?_⟩
    · rw [(upright.stand.trees id tree found).2]
      exact iff_of_true rfl (not_fallBegan_nil planted id)
    · intro later other began
      exact absurd began (not_fallBegan_nil planted id later)
    · intro later began
      exact absurd began (not_fallBegan_nil planted id later)
  posed category slot content tree found known := by
    refine ⟨?_, ?_, ?_⟩
    · intro _
      exact (upright.stand.slots category slot content found).1
    · intro later began
      exact absurd began (not_fallBegan_nil planted _ later)
    · intro later began
      exact absurd began (not_fallBegan_nil planted _ later)

private theorem fallBegan_update_iff {planted : Scene α} {steps : List (ForestStep α)} {time : α}
    {id : TreeId} {later : List (ForestStep α)} :
    FallBegan planted (steps ++ [.update time]) id later ↔
      ∃ before, later = before ++ [.update time] ∧ FallBegan planted steps id before := by
  rw [fallBegan_concat_iff]
  constructor
  · rintro (⟨-, reference, impossible, -⟩ | before)
    · cases impossible
    · exact before
  · exact .inr

theorem Posed.update {planted : Scene α} {steps : List (ForestStep α)} {tree : Tree α}
    {content : Slot α} (told : Told planted steps content.owner tree.phase)
    (posed : Posed planted steps tree content) (time stepTime : α) :
    Posed planted (steps ++ [.update time]) (tree.advance stepTime)
      (Batch.settled (Stand.rotated (tree.rotation? stepTime) content)) := by
  have quiet : ∀ later, FallBegan planted (steps ++ [.update time]) content.owner later →
      ¬ later.any ForestStep.isUpdate = false := by
    intro later began
    obtain ⟨before, rfl, -⟩ := fallBegan_update_iff.mp began
    simp [ForestStep.isUpdate]
  rcases Bool.eq_false_or_eq_true tree.phase.isFalling with falling | still
  · obtain ⟨fall, phase⟩ := Phase.isFalling_eq_true_iff.mp falling
    have rotation : tree.rotation? stepTime =
        some ((fall.advance stepTime).rotation tree.position) := by
      unfold Tree.rotation?
      rw [phase]
    rw [rotation]
    refine ⟨?_, ?_, ?_⟩
    · intro standing
      have stood := (Phase.isStanding_advance tree.phase stepTime).symm.trans
        (Phase.isStanding_eq_true_iff.mpr standing)
      rw [phase] at stood
      cases stood
    · intro later began idle
      exact absurd idle (quiet later began)
    · intro later began _
      refine ⟨fall.advance stepTime, ?_, rfl⟩
      change (tree.phase.advance stepTime).fall? = _
      rw [phase]
      exact Phase.fall?_phase _
  · rw [Stand.rotation?_of_not_falling still, Stand.advance_of_not_falling still]
    refine ⟨posed.standing, ?_, ?_⟩
    · intro later began idle
      exact absurd idle (quiet later began)
    · intro later began _
      obtain ⟨before, rfl, earlier⟩ := fallBegan_update_iff.mp began
      -- A tree that has begun to fall and falls no more has been moved.
      refine posed.moved before earlier ?_
      rw [← Bool.not_eq_false]
      intro idle
      rw [told.fresh before earlier idle] at still
      cases still

theorem Traced.update {planted : Scene α} {steps : List (ForestStep α)}
    (sound : (planted.run steps).Sound) (traced : Traced planted steps) (time : α) :
    Traced planted (steps ++ [.update time]) where
  told id tree found := by
    rw [run_concat, tree?_update sound] at found
    obtain ⟨old, known, rfl⟩ := Option.map_eq_some_iff.mp found
    obtain ⟨standing_iff, once, -⟩ := traced.told id old known
    refine ⟨?_, ?_, ?_⟩
    · rw [← Phase.isStanding_eq_true_iff]
      change (old.phase.advance _).isStanding = true ↔ _
      rw [Phase.isStanding_advance, Phase.isStanding_eq_true_iff, standing_iff]
      constructor
      · intro never later began
        obtain ⟨before, -, began⟩ := fallBegan_update_iff.mp began
        exact never before began
      · intro never before began
        exact never _ (fallBegan_update_iff.mpr ⟨before, rfl, began⟩)
    · intro later other began otherBegan
      obtain ⟨before, rfl, earlier⟩ := fallBegan_update_iff.mp began
      obtain ⟨otherBefore, rfl, otherEarlier⟩ := fallBegan_update_iff.mp otherBegan
      rw [once before otherBefore earlier otherEarlier]
    · intro later began quiet
      obtain ⟨before, rfl, -⟩ := fallBegan_update_iff.mp began
      simp [ForestStep.isUpdate] at quiet
  posed category slot content tree found known := by
    rw [run_concat, slot?_update sound] at found
    rw [run_concat, tree?_update sound] at known
    obtain ⟨oldContent, oldFound, rfl⟩ := Option.map_eq_some_iff.mp found
    change ((planted.run steps).tree? (Stand.rotated _ _).owner).map _ = some tree at known
    rw [Stand.owner_rotated] at known
    obtain ⟨old, oldKnown, rfl⟩ := Option.map_eq_some_iff.mp known
    have rotation : (planted.run steps).rotation? time oldContent.owner =
        old.rotation? ((planted.run steps).stepTime time) := by
      unfold rotation?
      rw [oldKnown]
      rfl
    rw [rotation]
    exact (traced.posed category slot oldContent old oldFound oldKnown).update
      (traced.told oldContent.owner old oldKnown) time _

private theorem fallBegan_fell_iff {planted : Scene α} {steps : List (ForestStep α)}
    {felled : TreeId} {reference : Vec3 α} {id : TreeId} {later : List (ForestStep α)} :
    FallBegan planted (steps ++ [.fell felled reference]) id later ↔
      (later = [] ∧ id = felled ∧
        ((planted.run steps).population.fell felled reference).1 = true) ∨
      ∃ before, later = before ++ [.fell felled reference] ∧ FallBegan planted steps id before := by
  rw [fallBegan_concat_iff]
  constructor
  · rintro (⟨rfl, other, same, began⟩ | before)
    · cases same
      exact .inl ⟨rfl, rfl, began⟩
    · exact .inr before
  · rintro (⟨rfl, rfl, began⟩ | before)
    · exact .inl ⟨rfl, reference, rfl, began⟩
    · exact .inr before

private theorem fallBegan_fell_of_other {planted : Scene α} {steps : List (ForestStep α)}
    {felled : TreeId} {reference : Vec3 α} {id : TreeId}
    (other : ¬ (id = felled ∧
      ((planted.run steps).population.fell felled reference).1 = true))
    {later : List (ForestStep α)} :
    FallBegan planted (steps ++ [.fell felled reference]) id later ↔
      ∃ before, later = before ++ [.fell felled reference] ∧ FallBegan planted steps id before := by
  rw [fallBegan_fell_iff]
  constructor
  · rintro (⟨-, began⟩ | before)
    · exact absurd began other
    · exact before
  · exact .inr

theorem Told.fell_of_other {planted : Scene α} {steps : List (ForestStep α)} {felled : TreeId}
    {reference : Vec3 α} {id : TreeId} {phase : Phase α}
    (other : ¬ (id = felled ∧
      ((planted.run steps).population.fell felled reference).1 = true))
    (told : Told planted steps id phase) :
    Told planted (steps ++ [.fell felled reference]) id phase where
  standing_iff := by
    rw [told.standing_iff]
    constructor
    · intro never later began
      obtain ⟨before, -, earlier⟩ := (fallBegan_fell_of_other other).mp began
      exact never before earlier
    · intro never before began
      exact never _ ((fallBegan_fell_of_other other).mpr ⟨before, rfl, began⟩)
  once later another began anotherBegan := by
    obtain ⟨before, rfl, earlier⟩ := (fallBegan_fell_of_other other).mp began
    obtain ⟨anotherBefore, rfl, anotherEarlier⟩ :=
      (fallBegan_fell_of_other other).mp anotherBegan
    rw [told.once before anotherBefore earlier anotherEarlier]
  fresh later began idle := by
    obtain ⟨before, rfl, earlier⟩ := (fallBegan_fell_of_other other).mp began
    refine told.fresh before earlier ?_
    simpa [ForestStep.isUpdate] using idle

theorem Posed.fell_of_other {planted : Scene α} {steps : List (ForestStep α)} {felled : TreeId}
    {reference : Vec3 α} {tree : Tree α} {content : Slot α}
    (other : ¬ (content.owner = felled ∧
      ((planted.run steps).population.fell felled reference).1 = true))
    (posed : Posed planted steps tree content) :
    Posed planted (steps ++ [.fell felled reference]) tree content where
  standing := posed.standing
  fresh later began idle := by
    obtain ⟨before, rfl, earlier⟩ := (fallBegan_fell_of_other other).mp began
    refine posed.fresh before earlier ?_
    simpa [ForestStep.isUpdate] using idle
  moved later began passed := by
    obtain ⟨before, rfl, earlier⟩ := (fallBegan_fell_of_other other).mp began
    refine posed.moved before earlier ?_
    simpa [ForestStep.isUpdate] using passed

private theorem fallBegan_fell_self {planted : Scene α} {steps : List (ForestStep α)} {id : TreeId}
    {reference : Vec3 α} (never : ∀ later, ¬ FallBegan planted steps id later)
    {later : List (ForestStep α)}
    (began : FallBegan planted (steps ++ [.fell id reference]) id later) : later = [] := by
  rcases fallBegan_fell_iff.mp began with ⟨now, -⟩ | ⟨before, -, earlier⟩
  · exact now
  · exact absurd earlier (never before)

theorem Traced.fell {planted : Scene α} {steps : List (ForestStep α)}
    (traced : Traced planted steps) (id : TreeId) (reference : Vec3 α) :
    Traced planted (steps ++ [.fell id reference]) := by
  rcases (planted.run steps).population.standing_or_not id with ⟨tree, found, standing⟩ | down
  · have trees := tree?_fell_of_standing found standing reference
    have begins : ((planted.run steps).population.fell id reference).1 = true :=
      (Population.fell_eq_true_iff _ id reference).mpr ⟨tree, found, standing⟩
    have never := (traced.told id tree found).standing_iff.mp standing
    constructor
    · intro other after known
      rw [run_concat, trees] at known
      split at known
      · rename_i same
        subst same
        cases known
        have now : FallBegan planted (steps ++ [.fell id reference]) id [] :=
          fallBegan_fell_iff.mpr (.inl ⟨rfl, rfl, begins⟩)
        refine ⟨?_, ?_, fun _ _ _ => rfl⟩
        · refine iff_of_false ?_ fun never => never [] now
          intro standing
          cases standing
        · intro later another began anotherBegan
          rw [fallBegan_fell_self never began, fallBegan_fell_self never anotherBegan]
      · rename_i different
        exact (traced.told other after known).fell_of_other fun same => different same.1.symm
    · intro category slot content after found known
      rw [run_concat, slot?_fell] at found
      rw [run_concat, trees] at known
      split at known
      · rename_i same
        cases known
        have stood : (planted.run steps).tree? content.owner = some tree := same ▸ ‹_›
        have here := (traced.posed category slot content tree found stood).standing standing
        refine ⟨fun _ => here, fun _ _ _ => here, ?_⟩
        intro later began passed
        rw [← same] at began
        rw [fallBegan_fell_self never began] at passed
        cases passed
      · rename_i different
        exact (traced.posed category slot content after found known).fell_of_other
          fun same => different same.1.symm
  · have refused : ¬ ((planted.run steps).population.fell id reference).1 = true := by
      rw [Population.fell_eq_true_iff]
      rintro ⟨tree, found, standing⟩
      exact down tree found standing
    have same := step_fell_of_not_standing down reference
    constructor
    · intro other tree found
      rw [run_concat, same] at found
      exact (traced.told other tree found).fell_of_other fun begins => refused begins.2
    · intro category slot content tree found known
      rw [run_concat, same] at found known
      exact (traced.posed category slot content tree found known).fell_of_other
        fun begins => refused begins.2

/-! ## Runs -/

theorem Traced.run {planted : Scene α} (sound : planted.Sound) (start : Traced planted [])
    (steps : List (ForestStep α)) : Traced planted steps := by
  induction steps using List.reverseRecOn with
  | nil => exact start
  | append_singleton steps step induction =>
      cases step with
      | fell id reference => exact induction.fell id reference
      | update time => exact induction.update (sound.run steps) time

private theorem made_step {scene : Scene α} (sound : scene.Sound) (step : ForestStep α)
    (category : Category) (slot : Nat) :
    ((scene.step step).slot? category slot).map (fun content => (content.base, content.owner)) =
      (scene.slot? category slot).map fun content => (content.base, content.owner) := by
  cases step with
  | fell id reference => rw [slot?_fell]
  | update time =>
      rw [slot?_update sound, Option.map_map]
      congr 1
      funext content
      change ((Stand.rotated _ content).base, (Stand.rotated _ content).owner) = _
      unfold Stand.rotated
      split <;> rfl

private theorem made_run {scene : Scene α} (sound : scene.Sound) (steps : List (ForestStep α))
    (category : Category) (slot : Nat) :
    ((scene.run steps).slot? category slot).map (fun content => (content.base, content.owner)) =
      (scene.slot? category slot).map fun content => (content.base, content.owner) := by
  induction steps generalizing scene with
  | nil => rfl
  | cons step steps induction =>
      exact (induction (sound.step step)).trans (made_step sound step category slot)

private theorem position_step {scene : Scene α} (sound : scene.Sound) (step : ForestStep α)
    (id : TreeId) :
    ((scene.step step).tree? id).map (·.position) = (scene.tree? id).map (·.position) := by
  cases step with
  | update time =>
      rw [tree?_update sound, Option.map_map]
      rfl
  | fell felled reference =>
      rcases scene.population.standing_or_not felled with ⟨tree, found, standing⟩ | down
      · rw [tree?_fell_of_standing found standing]
        split
        · rename_i same
          subst same
          change _ = (scene.population.stand.tree? felled).map _
          rw [found]
          rfl
        · rfl
      · rw [step_fell_of_not_standing down]

private theorem position_run {scene : Scene α} (sound : scene.Sound) (steps : List (ForestStep α))
    (id : TreeId) :
    ((scene.run steps).tree? id).map (·.position) = (scene.tree? id).map (·.position) := by
  induction steps generalizing scene with
  | nil => rfl
  | cons step steps induction =>
      exact (induction (sound.step step)).trans (position_step sound step id)

/-- Every slot of a planted forest keeps the placement it was made with and its owner. It is where
it was made, or where the present fall of its tree puts what was made, and the renderer holds it
there. -/
theorem posed_of_run {felling : Felling α} {planted : Scene α}
    (start : planted.Planted σ felling) (steps : List (ForestStep α)) (category : Category)
    (slot : Nat) :
    (planted.slot? category slot = none → (planted.run steps).slot? category slot = none) ∧
    ∀ original, planted.slot? category slot = some original →
      ∃ content tree, (planted.run steps).slot? category slot = some content ∧
        (planted.run steps).tree? content.owner = some tree ∧
        content.base = original.base ∧ content.owner = original.owner ∧
        Told planted steps content.owner tree.phase ∧ Posed planted steps tree content ∧
        (planted.run steps).uploaded? category slot = some content.live := by
  have upright := start.upright
  have sound := upright.sound
  have traced := upright.traced.run sound steps
  have made := made_run sound steps category slot
  constructor
  · intro absent
    rw [absent] at made
    exact Option.map_eq_none_iff.mp made
  · intro original recorded
    rw [recorded] at made
    obtain ⟨content, found, same⟩ := Option.map_eq_some_iff.mp made
    obtain ⟨base, owner⟩ := Prod.mk.inj same
    obtain ⟨tree, known⟩ : ∃ tree, (planted.run steps).tree? content.owner = some tree := by
      have inside := (upright.stand.slots category slot original recorded).2
      have planted : planted.tree? content.owner =
          some planted.population.stand.trees[original.owner] := by
        rw [owner]
        exact Array.getElem?_eq_getElem inside
      have position := position_run sound steps content.owner
      rw [planted] at position
      obtain ⟨tree, known, -⟩ := Option.map_eq_some_iff.mp position
      exact ⟨tree, known⟩
    exact ⟨content, tree, found, known, base, owner, traced.told content.owner tree known,
      traced.posed category slot content tree found known,
      (sound.run steps).shown category slot content found⟩

theorem posed_of_run_pole :
    Scene.pole.Planted Cycle .standard ∧
    ∃ original, Scene.pole.slot? .branch 0 = some original ∧
      ∃ content tree,
        (Scene.pole.run [.fell 0 ⟨1, 0, 0⟩, .update 1]).slot? .branch 0 = some content ∧
        (Scene.pole.run [.fell 0 ⟨1, 0, 0⟩, .update 1]).tree? content.owner = some tree ∧
        content.base = original.base ∧ content.owner = original.owner ∧
        Told Scene.pole [.fell 0 ⟨1, 0, 0⟩, .update 1] content.owner tree.phase ∧
        Posed Scene.pole [.fell 0 ⟨1, 0, 0⟩, .update 1] tree content ∧
        (Scene.pole.run [.fell 0 ⟨1, 0, 0⟩, .update 1]).uploaded? .branch 0 =
          some content.live := by
  have isThere : (Scene.pole.slot? .branch 0).isSome = true := by decide +kernel
  obtain ⟨original, recorded⟩ := Option.isSome_iff_exists.mp isThere
  exact ⟨pole_planted, original, recorded,
    (posed_of_run pole_planted _ .branch 0).2 original recorded⟩

end Scene

end Grove
