import Grove.Proofs.Forest.Kept
import Grove.Proofs.Forest.Rows

/-!
# Trees do not touch one another

All trees share the list of falling trees, the registry and its queues. Still what becomes of a tree
and its slots depends on nothing but the passing of time and the falls of this tree: leaving out all
steps that make other trees fall makes no difference to it. So the order in which several trees begin
to fall is seen in the list of falling trees alone.
-/

set_option autoImplicit false

namespace Grove

variable {α σ : Type}

namespace ForestStep

/-- Whether a step concerns a tree: time passes for all of them, and the falls of others do not. -/
def concerns (id : TreeId) : ForestStep α → Bool
  | .fell other _ => other == id
  | .update _ => true

/-- The steps that make trees fall away from reference points, one after the other. -/
def fellAll (falls : List (TreeId × Vec3 α)) : List (ForestStep α) :=
  falls.map fun (id, reference) => .fell id reference

private theorem filter_fellAll_cons (fall : TreeId × Vec3 α) (falls : List (TreeId × Vec3 α))
    (id : TreeId) :
    (fellAll (fall :: falls)).filter (·.concerns id) =
      if fall.1 = id then .fell fall.1 fall.2 :: (fellAll falls).filter (·.concerns id)
      else (fellAll falls).filter (·.concerns id) := by
  simp [fellAll, List.filter_cons, concerns]

/-- At most one of the falls of different trees concerns a tree, so that their order is lost. -/
theorem filter_fellAll_eq {falls permuted : List (TreeId × Vec3 α)}
    (different : (falls.map Prod.fst).Nodup) (perm : falls.Perm permuted) (id : TreeId) :
    (fellAll falls).filter (·.concerns id) = (fellAll permuted).filter (·.concerns id) := by
  induction perm with
  | nil => rfl
  | cons fall perm induction =>
      have rest := induction (List.nodup_cons.mp different).2
      simp only [filter_fellAll_cons, rest]
  | swap first second falls =>
      have fresh := (List.nodup_cons.mp different).1
      simp only [List.map_cons, List.mem_cons, not_or] at fresh
      simp only [filter_fellAll_cons]
      by_cases isSecond : second.1 = id
      · have notFirst : first.1 ≠ id := fun isFirst => fresh.1 (isSecond.trans isFirst.symm)
        simp [isSecond, notFirst]
      · simp [isSecond]
  | trans before after first second =>
      exact (first different).trans (second ((before.map Prod.fst).nodup_iff.mp different))

private theorem filter_fellAll_eq_nil {falls : List (TreeId × Vec3 α)} {id : TreeId}
    (absent : id ∉ falls.map Prod.fst) : (fellAll falls).filter (·.concerns id) = [] := by
  induction falls with
  | nil => rfl
  | cons fall falls induction =>
      simp only [List.map_cons, List.mem_cons, not_or] at absent
      rw [filter_fellAll_cons, if_neg (Ne.symm absent.1), induction absent.2]

end ForestStep

namespace Scene

/-- Two scenes are alike in one tree and its slots. -/
structure AlikeAt (id : TreeId) (first second : Scene α) : Prop where
  felling : first.population.animator.felling = second.population.animator.felling
  tree? : first.tree? id = second.tree? id
  slots : ∀ category slot content, content.owner = id →
    (first.slot? category slot = some content ↔ second.slot? category slot = some content)

/-- A tree and its slots are the same in two scenes, and the renderers show the same of it. -/
structure SharedAt (id : TreeId) (first second : Scene α) : Prop where
  tree? : first.tree? id = second.tree? id
  slots : ∀ category slot content, first.slot? category slot = some content →
    content.owner = id → second.slot? category slot = some content
  uploaded : ∀ category slot content, first.slot? category slot = some content →
    content.owner = id → first.uploaded? category slot = second.uploaded? category slot

/-- Two scenes are the same, except that falling trees may be listed in another order. -/
structure SameButOrder (first second : Scene α) : Prop where
  stand : first.population.stand = second.population.stand
  renderer : first.renderer = second.renderer
  felling : first.population.animator.felling = second.population.animator.felling
  active : first.population.animator.active.Perm second.population.animator.active

private theorem sameButOrder_of_alikeAt {planted first second : Scene α}
    (keptFirst : planted.Kept first) (keptSecond : planted.Kept second)
    (soundFirst : first.Sound) (soundSecond : second.Sound)
    (alike : ∀ id, AlikeAt id first second) : SameButOrder first second := by
  have slots : ∀ category slot, first.slot? category slot = second.slot? category slot :=
    fun category slot => Option.ext fun content =>
      (alike content.owner).slots category slot content rfl
  refine ⟨keptFirst.stand_eq keptSecond slots fun id => (alike id).tree?,
    keptFirst.renderer_eq keptSecond slots soundFirst soundSecond,
    keptFirst.felling.trans keptSecond.felling.symm, ?_⟩
  rw [List.perm_ext_iff_of_nodup soundFirst.active_nodup soundSecond.active_nodup]
  intro id
  rw [soundFirst.mem_active_iff, soundSecond.mem_active_iff, (alike id).tree?]

namespace AlikeAt

variable {id : TreeId} {first second third : Scene α}

private theorem refl (id : TreeId) (scene : Scene α) : AlikeAt id scene scene :=
  ⟨rfl, rfl, fun _ _ _ _ => .rfl⟩

private theorem symm (alike : AlikeAt id first second) : AlikeAt id second first :=
  ⟨alike.felling.symm, alike.tree?.symm, fun category slot content owned =>
    (alike.slots category slot content owned).symm⟩

private theorem trans (before : AlikeAt id first second) (after : AlikeAt id second third) :
    AlikeAt id first third :=
  ⟨before.felling.trans after.felling, before.tree?.trans after.tree?,
    fun category slot content owned =>
      (before.slots category slot content owned).trans (after.slots category slot content owned)⟩

private theorem shared (alike : AlikeAt id first second) (soundFirst : first.Sound)
    (soundSecond : second.Sound) : SharedAt id first second where
  tree? := alike.tree?
  slots category slot content found owned := (alike.slots category slot content owned).mp found
  uploaded category slot content found owned := by
    have known := (alike.slots category slot content owned).mp found
    rw [soundFirst.shown category slot content found,
      soundSecond.shown category slot content known]

variable [Scalar α]

private theorem fell_eq (alike : AlikeAt id first second) (reference : Vec3 α) :
    (first.population.fell id reference).1 = (second.population.fell id reference).1 := by
  have same : first.population.stand.tree? id = second.population.stand.tree? id := alike.tree?
  rw [Bool.eq_iff_iff, Population.fell_eq_true_iff, Population.fell_eq_true_iff, same]

private theorem skip (scene : Scene α) {step : ForestStep α} (other : step.concerns id = false) :
    AlikeAt id (scene.step step) scene := by
  cases step with
  | update time => cases other
  | fell felled reference =>
      have apart : felled ≠ id := by simpa [ForestStep.concerns] using other
      refine ⟨felling_step scene _, ?_, fun category slot content _ => by rw [slot?_fell]⟩
      rcases scene.population.standing_or_not felled with ⟨tree, found, standing⟩ | down
      · rw [tree?_fell_of_standing found standing, if_neg apart]
      · rw [step_fell_of_not_standing down]

private theorem fell (alike : AlikeAt id first second) (reference : Vec3 α) :
    AlikeAt id (first.step (.fell id reference)) (second.step (.fell id reference)) := by
  rcases first.population.standing_or_not id with ⟨tree, found, standing⟩ | down
  · have known : second.tree? id = some tree := alike.tree?.symm.trans found
    refine ⟨?_, ?_, fun category slot content owned => ?_⟩
    · simpa only [felling_step] using alike.felling
    · rw [tree?_fell_of_standing found standing, tree?_fell_of_standing known standing, if_pos rfl,
        if_pos rfl, alike.felling]
    · simpa only [slot?_fell] using alike.slots category slot content owned
  · have downToo : ∀ tree, second.tree? id = some tree → tree.phase ≠ .standing :=
      fun tree known => down tree (alike.tree?.trans known)
    rwa [step_fell_of_not_standing down, step_fell_of_not_standing downToo]

private theorem slot?_update (alike : AlikeAt id first second) (soundFirst : first.Sound)
    (soundSecond : second.Sound) (time : α) {category : Category} {slot : Nat}
    {content : Slot α} (owned : content.owner = id)
    (found : (first.step (.update time)).slot? category slot = some content) :
    (second.step (.update time)).slot? category slot = some content := by
  rw [Scene.slot?_update soundFirst] at found
  obtain ⟨old, known, rfl⟩ := Option.map_eq_some_iff.mp found
  have owner : old.owner = id := (Stand.owner_rotated _ old).symm.trans owned
  have rotation : second.rotation? time old.owner = first.rotation? time old.owner := by
    rw [owner, rotation?, rotation?, alike.tree?, stepTime_eq alike.felling, stepTime_eq rfl]
  rw [Scene.slot?_update soundSecond, (alike.slots category slot old owner).mp known,
    Option.map_some, rotation]

private theorem update (alike : AlikeAt id first second) (soundFirst : first.Sound)
    (soundSecond : second.Sound) (time : α) :
    AlikeAt id (first.step (.update time)) (second.step (.update time)) where
  felling := by simpa only [felling_step] using alike.felling
  tree? := by
    rw [tree?_update soundFirst, tree?_update soundSecond, alike.tree?, stepTime_eq alike.felling,
      stepTime_eq rfl]
  slots _ _ _ owned :=
    ⟨alike.slot?_update soundFirst soundSecond time owned,
      alike.symm.slot?_update soundSecond soundFirst time owned⟩

private theorem step (alike : AlikeAt id first second) (soundFirst : first.Sound)
    (soundSecond : second.Sound) {step : ForestStep α} (concerned : step.concerns id = true) :
    AlikeAt id (first.step step) (second.step step) := by
  cases step with
  | update time => exact alike.update soundFirst soundSecond time
  | fell felled reference =>
      have same : felled = id := by simpa [ForestStep.concerns] using concerned
      subst same
      exact alike.fell reference

/-- Steps that do not concern a tree can be left out. -/
theorem run_filter (alike : AlikeAt id first second) (soundFirst : first.Sound)
    (soundSecond : second.Sound) (steps : List (ForestStep α)) :
    AlikeAt id (first.run steps) (second.run (steps.filter (·.concerns id))) := by
  induction steps generalizing first second with
  | nil => exact alike
  | cons step steps induction =>
      cases concerned : step.concerns id with
      | true =>
          rw [List.filter_cons_of_pos concerned]
          exact induction (alike.step soundFirst soundSecond concerned) (soundFirst.step step)
            (soundSecond.step step)
      | false =>
          rw [List.filter_cons_of_neg (by simp [concerned])]
          exact induction ((skip first concerned).trans alike) (soundFirst.step step) soundSecond

end AlikeAt

variable [Scalar α]

/-- Runs with the same steps that concern a tree make the same of it. -/
theorem alikeAt_run {planted : Scene α} (sound : planted.Sound) {id : TreeId}
    {first second : List (ForestStep α)}
    (same : first.filter (·.concerns id) = second.filter (·.concerns id)) :
    AlikeAt id (planted.run first) (planted.run second) := by
  have left := (AlikeAt.refl id planted).run_filter sound sound first
  have right := (AlikeAt.refl id planted).run_filter sound sound second
  rw [same] at left
  exact left.trans right.symm

/-! ## Pairs of runs -/

/-- What two runs of a forest have in common that begin the same falls in different orders. -/
structure OrderLost (planted : Scene α) (earlier later : List (ForestStep α))
    (falls permuted : List (TreeId × Vec3 α)) : Prop where
  scenes : SameButOrder (planted.run (earlier ++ ForestStep.fellAll falls ++ later))
    (planted.run (earlier ++ ForestStep.fellAll permuted ++ later))
  /-- Whether a fall begins does not depend on the falls before it. -/
  answers : ∀ before id reference after, permuted = before ++ (id, reference) :: after →
    ((planted.run (earlier ++ ForestStep.fellAll before)).population.fell id reference).1 =
      ((planted.run earlier).population.fell id reference).1

private theorem orderLost_of_perm {planted : Scene α} (sound : planted.Sound)
    (kept : planted.Kept planted) (earlier later : List (ForestStep α))
    {falls permuted : List (TreeId × Vec3 α)} (different : (falls.map Prod.fst).Nodup)
    (perm : falls.Perm permuted) :
    OrderLost planted earlier later falls permuted where
  scenes := by
    refine sameButOrder_of_alikeAt (kept.run sound _) (kept.run sound _) (sound.run _)
      (sound.run _) fun id => alikeAt_run sound ?_
    simp only [List.filter_append, ForestStep.filter_fellAll_eq different perm]
  answers := by
    rintro before id reference after rfl
    have unique := (perm.map Prod.fst).nodup_iff.mp different
    rw [List.map_append, List.map_cons, List.nodup_append] at unique
    have absent : id ∉ before.map Prod.fst := fun member =>
      unique.2.2 id member id List.mem_cons_self rfl
    refine (alikeAt_run sound ?_).fell_eq reference
    rw [List.filter_append, ForestStep.filter_fellAll_eq_nil absent, List.append_nil]

variable [Generator σ]

/-- What becomes of a tree in a planted forest depends only on the steps that concern it, and the
order in which different trees are made to fall is lost but in the list of falling trees. -/
theorem independent_of_run {felling : Felling α} {planted : Scene α}
    (start : planted.Planted σ felling) :
    (∀ id first second, first.filter (ForestStep.concerns id) =
        second.filter (ForestStep.concerns id) →
      SharedAt id (planted.run first) (planted.run second)) ∧
    ∀ earlier later falls permuted, (falls.map Prod.fst).Nodup → falls.Perm permuted →
      OrderLost planted earlier later falls permuted := by
  have sound := start.upright.sound
  exact ⟨fun id first second same =>
      (alikeAt_run sound same).shared (sound.run first) (sound.run second),
    fun earlier later _ _ different perm =>
      orderLost_of_perm sound start.kept earlier later different perm⟩

theorem independent_of_run_pair :
    ∃ planted : Scene Float32, planted.Planted Cycle .standard ∧
      (∀ id < 2, ∃ tree, planted.tree? id = some tree ∧ tree.phase = .standing) ∧
      SharedAt 0 (planted.run [.fell 0 ⟨1, 0, 0⟩, .fell 1 ⟨0, 0, 1⟩, .update 1])
        (planted.run [.fell 0 ⟨1, 0, 0⟩, .update 1]) ∧
      OrderLost planted [.update 1] [.update 1] [(0, ⟨1, 0, 0⟩), (1, ⟨0, 0, 1⟩)]
        [(1, ⟨0, 0, 1⟩), (0, ⟨1, 0, 0⟩)] := by
  obtain ⟨planted, start, trees⟩ := Population.exists_planted Species.drawable_broadleaf
    [⟨0, 0, 0⟩, ⟨5, 0, 0⟩] .standard (⟨#[0], 0⟩ : Cycle)
  obtain ⟨shared, orderLost⟩ := independent_of_run start
  exact ⟨planted, start, trees, shared 0 _ _ rfl, orderLost _ _ _ _ (by decide) (.swap ..)⟩

end Scene

end Grove
