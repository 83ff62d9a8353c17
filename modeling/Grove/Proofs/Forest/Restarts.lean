import Mathlib.Data.List.Basic
import Mathlib.Logic.Function.Iterate
import Grove.Proofs.Forest.Progress
import Grove.Proofs.Single.Factors

/-!
# Trees that are put back upright

The animator keeps a list of its own of the trees that fall, while anybody can put a tree back
upright. Such a tree stays listed until the next update, which drops it. If it is started again
before that, it is listed twice; and an update moves a tree on as many times as it is listed. Where
this does not happen, every falling tree is listed once and moved on by one step.
-/

set_option autoImplicit false

namespace Grove

/-- One thing that happens to an animator or to its trees. -/
inductive AnimationStep (α : Type) where
  | start (id : TreeId) (reference : Vec3 α)
  | update (time : α)
  /-- A tree is put back upright, behind the back of the animator. -/
  | raise (id : TreeId)

/-- An animator with the trees that it moves. -/
structure Animation (α : Type) where
  animator : Animator α
  stand : Stand α

section

variable {α : Type} [Scalar α]

namespace Phase

private theorem falling_of_advance {phase : Phase α} {time : α} {later : Fall α}
    (falling : phase.advance time = .falling later) :
    ∃ fall, phase = .falling fall ∧ later = fall.advance time := by
  cases phase with
  | standing => cases falling
  | falling fall =>
      refine ⟨fall, rfl, ?_⟩
      change (fall.advance time).phase = .falling later at falling
      unfold Fall.phase at falling
      split at falling
      · cases falling
      · cases falling
        rfl
  | felled fall => cases falling

end Phase

namespace Stand

/-- A step moves a listed tree on as many times as it is listed. -/
theorem tree?_advanceTrees_eq_iterate (stand : Stand α) (time : α) (ids : List TreeId)
    (other : TreeId) :
    (stand.advanceTrees time ids).2.tree? other =
      (stand.tree? other).map (·.advance time)^[ids.count other] := by
  induction ids generalizing stand with
  | nil =>
      change stand.tree? other = _
      simp
  | cons id ids induction =>
      change ((stand.advanceTree time id).2.advanceTrees time ids).2.tree? other = _
      rw [induction, tree?_advanceTree, List.count_cons]
      by_cases same : id = other
      · simp [same, Function.iterate_succ]
      · simp [same]

/-- A tree that still falls after a step stays listed. -/
theorem mem_advanceTrees_of_falling {stand : Stand α} {time : α} {ids : List TreeId}
    {id : TreeId} (listed : id ∈ ids) {tree : Tree α} {fall : Fall α}
    (found : (stand.advanceTrees time ids).2.tree? id = some tree)
    (falling : tree.phase = .falling fall) : id ∈ (stand.advanceTrees time ids).1 := by
  induction ids generalizing stand with
  | nil => cases listed
  | cons first ids induction =>
      change id ∈ if (stand.advanceTree time first).1 then
        first :: ((stand.advanceTree time first).2.advanceTrees time ids).1
        else ((stand.advanceTree time first).2.advanceTrees time ids).1
      change ((stand.advanceTree time first).2.advanceTrees time ids).2.tree? id = some tree
        at found
      by_cases again : id ∈ ids
      · have kept := induction again found
        split
        · exact .tail _ kept
        · exact kept
      · obtain rfl : id = first := (List.mem_cons.mp listed).resolve_right again
        -- The tree is not listed again, so it has fallen on by this step alone.
        rw [tree?_advanceTrees_eq_iterate, List.count_eq_zero_of_not_mem again, tree?_advanceTree,
          if_pos rfl] at found
        have moved : (stand.tree? id).map (·.advance time) = some tree := by simpa using found
        have still : (stand.advanceTree time id).1 = true := by
          rw [advanceTree_falling, moved, Option.any_some, falling]
          rfl
        rw [if_pos still]
        exact .head _

private theorem advanceTrees_sublist (stand : Stand α) (time : α) (ids : List TreeId) :
    (stand.advanceTrees time ids).1.Sublist ids := by
  induction ids generalizing stand with
  | nil => exact .slnil
  | cons id ids induction =>
      have rest := induction (stand.advanceTree time id).2
      change List.Sublist (if (stand.advanceTree time id).1 then
        id :: ((stand.advanceTree time id).2.advanceTrees time ids).1
        else ((stand.advanceTree time id).2.advanceTrees time ids).1) _
      split
      · exact rest.cons_cons id
      · exact rest.cons id

end Stand

namespace Tree

private theorem id_iterate_advance (time : α) (count : Nat) (tree : Tree α) :
    ((·.advance time)^[count] tree).id = tree.id := by
  induction count generalizing tree with
  | zero => rfl
  | succ count induction => exact induction (tree.advance time)

/-- A tree that falls after some steps has been falling, in a fall of the same duration. -/
theorem falling_of_iterate_advance {tree : Tree α} {time : α} {count : Nat} {later : Fall α}
    (falling : ((·.advance time)^[count] tree).phase = .falling later) :
    ∃ fall, tree.phase = .falling fall ∧ later.durationSecs = fall.durationSecs := by
  induction count generalizing tree with
  | zero => exact ⟨later, falling, rfl⟩
  | succ count induction =>
      obtain ⟨middle, reached, same⟩ := induction falling
      obtain ⟨fall, phase, rfl⟩ := Phase.falling_of_advance reached
      exact ⟨fall, phase, same⟩

end Tree

theorem Animator.update_eq (animator : Animator α) (time : α) (stand : Stand α) :
    animator.update time stand =
      ({ animator with
          active := (stand.advanceTrees (animator.stepTime time) animator.active).1 },
        (stand.advanceTrees (animator.stepTime time) animator.active).2) := by
  obtain ⟨felling, active⟩ := animator
  cases active <;> rfl

/-- A fall that is moved on is moved on by its share of the time. -/
theorem Fall.advance_eq {fall : Fall α} (positive : 0 < fall.durationSecs) (time : α) :
    fall.advance time =
      { fall with elapsed := Scalar.clamp (fall.elapsed + time / fall.durationSecs) 0 1 } := by
  rw [advance, fraction, if_pos positive]

namespace Animation

def tree? (animation : Animation α) (id : TreeId) : Option (Tree α) :=
  animation.stand.tree? id

/-- The trees that are listed as falling. -/
def active (animation : Animation α) : List TreeId :=
  animation.animator.active

def step (animation : Animation α) : AnimationStep α → Animation α
  | .start id reference =>
      match (animation.tree? id).bind (animation.animator.start? · reference) with
      | some (animator, tree) => ⟨animator, animation.stand.setPhase id tree.phase⟩
      | none => animation
  | .update time =>
      let (animator, stand) := animation.animator.update time animation.stand
      { animator, stand }
  | .raise id => { animation with stand := animation.stand.setPhase id .standing }

def run (animation : Animation α) (steps : List (AnimationStep α)) : Animation α :=
  steps.foldl step animation

private theorem run_concat (animation : Animation α) (steps : List (AnimationStep α))
    (last : AnimationStep α) : animation.run (steps ++ [last]) = (animation.run steps).step last := by
  simp [run]

/-! ## Steps -/

omit [Scalar α] in
private theorem standing_or_not (animation : Animation α) (id : TreeId) :
    (∃ tree, animation.tree? id = some tree ∧ tree.phase = .standing) ∨
      ∀ tree, animation.tree? id = some tree → tree.phase ≠ .standing := by
  by_cases standing : ∃ tree, animation.tree? id = some tree ∧ tree.phase = .standing
  · exact .inl standing
  · exact .inr fun tree found upright => standing ⟨tree, found, upright⟩

private theorem step_start_of_standing {animation : Animation α} {id : TreeId} {tree : Tree α}
    (found : animation.tree? id = some tree) (standing : tree.phase = .standing)
    (reference : Vec3 α) :
    animation.step (.start id reference) =
      ⟨{ animation.animator with active := animation.animator.active ++ [tree.id] },
        animation.stand.setPhase id
          (.falling (.start animation.animator.felling tree.position reference))⟩ := by
  have upright : tree.phase.isStanding = true := Phase.isStanding_eq_true_iff.mpr standing
  simp only [step, found, Option.bind_some, Animator.start?, if_pos upright]

private theorem step_start_of_not_standing {animation : Animation α} {id : TreeId}
    (down : ∀ tree, animation.tree? id = some tree → tree.phase ≠ .standing)
    (reference : Vec3 α) : animation.step (.start id reference) = animation := by
  cases found : animation.tree? id with
  | none => simp only [step, found, Option.bind_none]
  | some tree =>
      have fallen : tree.phase.isStanding ≠ true := fun upright =>
        down tree found (Phase.isStanding_eq_true_iff.mp upright)
      simp only [step, found, Option.bind_some, Animator.start?, if_neg fallen]

private theorem tree?_update (animation : Animation α) (time : α) (id : TreeId) :
    (animation.step (.update time)).tree? id =
      (animation.tree? id).map
        (·.advance (animation.animator.stepTime time))^[animation.active.count id] := by
  change (animation.animator.update time animation.stand).2.tree? id = _
  rw [Animator.update_eq]
  exact Stand.tree?_advanceTrees_eq_iterate _ _ _ id

private theorem active_update (animation : Animation α) (time : α) :
    (animation.step (.update time)).active =
      (animation.stand.advanceTrees (animation.animator.stepTime time) animation.active).1 := by
  change (animation.animator.update time animation.stand).1.active = _
  rw [Animator.update_eq]
  rfl

private theorem tree?_raise (animation : Animation α) (id other : TreeId) :
    (animation.step (.raise id)).tree? other =
      if id = other then (animation.tree? other).map fun tree => { tree with phase := .standing }
      else animation.tree? other :=
  animation.stand.tree?_setPhase id other .standing

private theorem tree?_start_of_standing {animation : Animation α} {id : TreeId} {tree : Tree α}
    (found : animation.tree? id = some tree) (standing : tree.phase = .standing)
    (reference : Vec3 α) (other : TreeId) :
    (animation.step (.start id reference)).tree? other =
      if id = other then
        some { tree with
          phase := .falling (.start animation.animator.felling tree.position reference) }
      else animation.tree? other := by
  rw [step_start_of_standing found standing, tree?, Stand.tree?_setPhase]
  by_cases same : id = other
  · subst same
    change animation.stand.tree? id = some tree at found
    rw [if_pos rfl, if_pos rfl, found]
    rfl
  · rw [if_neg same, if_neg same]
    rfl

/-! ## What is listed -/

/-- The animator lists every tree that falls, by its number, and its falls all take the time of the
felling. -/
structure Listed (animation : Animation α) (felling : Felling α) : Prop where
  same : animation.animator.felling = felling
  ids : ∀ id tree, animation.tree? id = some tree → tree.id = id
  listed : ∀ id tree fall, animation.tree? id = some tree → tree.phase = .falling fall →
    id ∈ animation.active
  durationSecs : ∀ id tree fall, animation.tree? id = some tree → tree.phase = .falling fall →
    fall.durationSecs = felling.durationSecs

variable {animation : Animation α} {felling : Felling α}

theorem Listed.active_start (listed : animation.Listed felling) {id : TreeId} {tree : Tree α}
    (found : animation.tree? id = some tree) (standing : tree.phase = .standing)
    (reference : Vec3 α) :
    (animation.step (.start id reference)).active = animation.active ++ [id] := by
  rw [step_start_of_standing found standing, listed.ids id tree found]
  rfl

theorem Listed.start (listed : animation.Listed felling) (id : TreeId) (reference : Vec3 α) :
    (animation.step (.start id reference)).Listed felling := by
  obtain ⟨tree, found, standing⟩ | down := animation.standing_or_not id
  · have after := tree?_start_of_standing found standing reference
    have appended := listed.active_start found standing reference
    refine ⟨?_, ?_, ?_, ?_⟩
    · rw [step_start_of_standing found standing]
      exact listed.same
    · intro other later known
      rw [after] at known
      split at known
      · rename_i same
        cases known
        exact same ▸ listed.ids id tree found
      · exact listed.ids other later known
    · intro other later fall known falling
      rw [appended]
      rw [after] at known
      split at known
      · rename_i same
        exact same ▸ List.mem_append_right _ (.head _)
      · exact List.mem_append_left _ (listed.listed other later fall known falling)
    · intro other later fall known falling
      rw [after] at known
      split at known
      · cases known
        cases falling
        exact congrArg Felling.durationSecs listed.same
      · exact listed.durationSecs other later fall known falling
  · rw [step_start_of_not_standing down]
    exact listed

theorem Listed.update (listed : animation.Listed felling) (time : α) :
    (animation.step (.update time)).Listed felling := by
  have before : ∀ id later, (animation.step (.update time)).tree? id = some later →
      ∃ tree, animation.tree? id = some tree ∧
        (·.advance (animation.animator.stepTime time))^[animation.active.count id] tree = later := by
    intro id later known
    rw [tree?_update] at known
    exact Option.map_eq_some_iff.mp known
  refine ⟨?_, ?_, ?_, ?_⟩
  · change (animation.animator.update time animation.stand).1.felling = felling
    rw [Animator.update_eq]
    exact listed.same
  · intro id later known
    obtain ⟨tree, found, rfl⟩ := before id later known
    exact (Tree.id_iterate_advance _ _ _).trans (listed.ids id tree found)
  · intro id later fall known falling
    obtain ⟨tree, found, rfl⟩ := before id later known
    obtain ⟨begun, fell, -⟩ := Tree.falling_of_iterate_advance falling
    rw [active_update]
    refine Stand.mem_advanceTrees_of_falling (listed.listed id tree begun found fell) ?_ falling
    change (animation.animator.update time animation.stand).2.tree? id = _ at known
    rw [Animator.update_eq] at known
    exact known
  · intro id later fall known falling
    obtain ⟨tree, found, rfl⟩ := before id later known
    obtain ⟨begun, fell, duration⟩ := Tree.falling_of_iterate_advance falling
    exact duration.trans (listed.durationSecs id tree begun found fell)

theorem Listed.raise (listed : animation.Listed felling) (id : TreeId) :
    (animation.step (.raise id)).Listed felling := by
  have before : ∀ other later fall, (animation.step (.raise id)).tree? other = some later →
      later.phase = .falling fall → animation.tree? other = some later := by
    intro other later fall known falling
    rw [tree?_raise] at known
    split at known
    · obtain ⟨tree, found, rfl⟩ := Option.map_eq_some_iff.mp known
      cases falling
    · exact known
  refine ⟨listed.same, ?_, ?_, ?_⟩
  · intro other later known
    rw [tree?_raise] at known
    split at known
    · obtain ⟨tree, found, rfl⟩ := Option.map_eq_some_iff.mp known
      exact listed.ids other tree found
    · exact listed.ids other later known
  · intro other later fall known falling
    exact listed.listed other later fall (before other later fall known falling) falling
  · intro other later fall known falling
    exact listed.durationSecs other later fall (before other later fall known falling) falling

theorem Listed.step (listed : animation.Listed felling) (step : AnimationStep α) :
    (animation.step step).Listed felling := by
  cases step with
  | start id reference => exact listed.start id reference
  | update time => exact listed.update time
  | raise id => exact listed.raise id

theorem Listed.run (listed : animation.Listed felling) (steps : List (AnimationStep α)) :
    (animation.run steps).Listed felling := by
  induction steps generalizing animation with
  | nil => exact listed
  | cons step steps induction => exact induction (listed.step step)

/-! ## Restarts -/

/-- A step starts a tree that stands and is still listed. -/
def Restarts (animation : Animation α) : AnimationStep α → Prop
  | .start id _ =>
      id ∈ animation.active ∧ ∃ tree, animation.tree? id = some tree ∧ tree.phase = .standing
  | _ => False

/-- One of some steps starts a tree that stands and is still listed then. -/
def Restarted (start : Animation α) (steps : List (AnimationStep α)) : Prop :=
  ∃ earlier step, earlier ++ [step] <+: steps ∧ (start.run earlier).Restarts step

/-- A list without repetitions gets one exactly by a restart. -/
theorem nodup_active_step_iff (listed : animation.Listed felling)
    (nodup : animation.active.Nodup) (step : AnimationStep α) :
    (animation.step step).active.Nodup ↔ ¬ animation.Restarts step := by
  cases step with
  | start id reference =>
      obtain ⟨tree, found, standing⟩ | down := animation.standing_or_not id
      · rw [listed.active_start found standing]
        constructor
        · intro apart restarts
          exact (List.nodup_append.mp apart).2.2 id restarts.1 id (.head _) rfl
        · intro fresh
          refine nodup.append (List.nodup_singleton id) ?_
          intro other member same
          cases List.mem_singleton.mp same
          exact fresh ⟨member, tree, found, standing⟩
      · rw [step_start_of_not_standing down]
        refine ⟨fun _ restarts => ?_, fun _ => nodup⟩
        obtain ⟨tree, found, standing⟩ := restarts.2
        exact down tree found standing
  | update time =>
      refine ⟨fun _ restarts => restarts.elim, fun _ => ?_⟩
      rw [active_update]
      exact nodup.sublist (Stand.advanceTrees_sublist ..)
  | raise id => exact ⟨fun _ restarts => restarts.elim, fun _ => nodup⟩

private theorem not_restarted_concat_iff (start : Animation α)
    (steps : List (AnimationStep α)) (last : AnimationStep α) :
    ¬ start.Restarted (steps ++ [last]) ↔
      ¬ start.Restarted steps ∧ ¬ (start.run steps).Restarts last := by
  rw [← not_or, not_iff_not]
  constructor
  · rintro ⟨earlier, step, isFirst, restarts⟩
    obtain same | isFirst := List.prefix_concat_iff.mp isFirst
    · obtain ⟨rfl, rfl⟩ := List.append_singleton_inj.mp same
      exact .inr restarts
    · exact .inl ⟨earlier, step, isFirst, restarts⟩
  · rintro (⟨earlier, step, isFirst, restarts⟩ | restarts)
    · exact ⟨earlier, step, isFirst.trans (List.prefix_append ..), restarts⟩
    · exact ⟨steps, last, List.prefix_rfl, restarts⟩

/-- The list never gets a repetition exactly if nothing is restarted. -/
theorem nodup_active_run_iff (listed : animation.Listed felling)
    (nodup : animation.active.Nodup) (steps : List (AnimationStep α)) :
    (∀ earlier, earlier <+: steps → (animation.run earlier).active.Nodup) ↔
      ¬ animation.Restarted steps := by
  induction steps using List.reverseRecOn with
  | nil =>
      constructor
      · rintro - ⟨earlier, step, isFirst, -⟩
        cases List.append_eq_nil_iff.mp (List.prefix_nil.mp isFirst) |>.2
      · intro _ earlier isFirst
        cases List.prefix_nil.mp isFirst
        exact nodup
  | append_singleton steps last induction =>
      rw [not_restarted_concat_iff, ← induction]
      constructor
      · intro throughout
        have before : ∀ earlier, earlier <+: steps → (animation.run earlier).active.Nodup :=
          fun earlier isFirst => throughout earlier (isFirst.trans (List.prefix_append ..))
        refine ⟨before, ?_⟩
        rw [← nodup_active_step_iff (listed.run steps) (before steps List.prefix_rfl),
          ← run_concat]
        exact throughout _ List.prefix_rfl
      · rintro ⟨before, fresh⟩ earlier isFirst
        obtain rfl | isFirst := List.prefix_concat_iff.mp isFirst
        · rw [run_concat, nodup_active_step_iff (listed.run steps)
            (before steps List.prefix_rfl)]
          exact fresh
        · exact before earlier isFirst

/-! ## Steps in time -/

omit [Scalar α] in
theorem Listed.count_pos (listed : animation.Listed felling) {id : TreeId} {tree : Tree α}
    (found : animation.tree? id = some tree) {fall : Fall α} (falling : tree.phase = .falling fall) :
    0 < animation.active.count id :=
  List.count_pos_iff.mpr (listed.listed id tree fall found falling)

/-- A tree that is listed once is moved on once. -/
theorem Listed.fall?_update (listed : animation.Listed felling) (positive : 0 < felling.durationSecs)
    (nodup : animation.active.Nodup) {id : TreeId} {tree : Tree α}
    (found : animation.tree? id = some tree) {fall : Fall α} (falling : tree.phase = .falling fall)
    (time : α) :
    ∃ after, (animation.step (.update time)).tree? id = some after ∧
      after.phase.fall? = some
        { fall with
          elapsed := Scalar.clamp
            (fall.elapsed + animation.animator.stepTime time / felling.durationSecs) 0 1 } := by
  have once : animation.active.count id = 1 :=
    List.count_eq_one_of_mem nodup (listed.listed id tree fall found falling)
  have duration := listed.durationSecs id tree fall found falling
  refine ⟨tree.advance (animation.animator.stepTime time), ?_, ?_⟩
  · rw [tree?_update, found, once]
    rfl
  · have moved : (tree.advance (animation.animator.stepTime time)).phase =
        (fall.advance (animation.animator.stepTime time)).phase := by
      change tree.phase.advance _ = _
      rw [falling]
      rfl
    rw [moved, Phase.fall?_phase, Fall.advance_eq (duration ▸ positive), duration]

/-- Where nothing is listed twice, a step keeps only falling trees listed. -/
theorem falling_of_mem_active_update (nodup : animation.active.Nodup) {time : α} {id : TreeId}
    (listed : id ∈ (animation.step (.update time)).active) :
    ∃ tree fall, (animation.step (.update time)).tree? id = some tree ∧
      tree.phase = .falling fall := by
  rw [active_update, Stand.advanceTrees_falling _ _ nodup, List.mem_filter] at listed
  obtain ⟨member, falls⟩ := listed
  obtain ⟨tree, moved, falling⟩ := (Option.any_eq_true ..).mp falls
  obtain ⟨fall, phase⟩ := Phase.isFalling_eq_true_iff.mp falling
  refine ⟨tree, fall, ?_, phase⟩
  rw [tree?_update, List.count_eq_one_of_mem nodup member]
  exact moved

/-- A tree that is restarted is listed more than once. -/
theorem Listed.one_lt_count (listed : animation.Listed felling) {id : TreeId} {reference : Vec3 α}
    (restarts : animation.Restarts (.start id reference)) :
    1 < (animation.step (.start id reference)).active.count id := by
  obtain ⟨member, tree, found, standing⟩ := restarts
  rw [listed.active_start found standing, List.count_append, List.count_singleton_self]
  exact Nat.succ_lt_succ (List.count_pos_iff.mpr member)

end Animation

end

/-! ## Single precision -/

open Single

namespace Animator

variable {animator : Animator Float32} {time limit : Float32}

private theorem stepTime_nonneg (animator : Animator Float32) (time : Float32) :
    0 ≤ animator.stepTime time := by
  refine le_iff.mpr ⟨zero_isNaN, stepTime_isNaN animator time, ?_⟩
  rw [place_zero]
  exact place_stepTime_nonneg animator time

private theorem stepTime_le_limit (valid : animator.felling.Valid)
    (given : animator.felling.maxStep = some limit) : animator.stepTime time ≤ limit := by
  obtain ⟨finite, positive⟩ := valid.maxStep limit given
  have number := (isFinite_iff_place.mp finite).1
  have least := (not_le_zero_iff number).mp positive
  have shorter : (Scalar.min time limit).isNaN = false ∧
      place (Scalar.min time limit) ≤ place limit := by
    unfold Scalar.min
    rw [scalar_isNaN]
    cases numeric : time.isNaN with
    | true => exact ⟨number, Int.le_refl _⟩
    | false =>
        rw [if_neg Bool.false_ne_true]
        split
        · exact ⟨number, Int.le_refl _⟩
        · rename_i notBelow
          exact ⟨numeric, (le_iff.mp (le_of_numbers numeric number notBelow)).2.2⟩
  have limited : animator.stepTime time = Scalar.max (Scalar.min time limit) 0 := by
    unfold stepTime
    rw [given]
  obtain ⟨stepNumber, stepPlace⟩ := place_max shorter.1 zero_isNaN
  rw [limited]
  refine le_iff.mpr ⟨stepNumber, number, ?_⟩
  rw [stepPlace, place_zero]
  exact max_le shorter.2 (Int.le_of_lt least)

/-- A positive time within the limit is taken as it is. -/
theorem stepTime_of_pos (positive : 0 < time)
    (within : ∀ limit, animator.felling.maxStep = some limit → time ≤ limit) :
    animator.stepTime time = time := by
  obtain ⟨-, number, above⟩ := lt_iff.mp positive
  have notBelow : ¬ time < 0 := fun below =>
    Int.lt_irrefl _ (Int.lt_trans above (lt_iff.mp below).2.2)
  have greater : Scalar.max time 0 = time := by
    unfold Scalar.max
    rw [scalar_isNaN, number, if_neg Bool.false_ne_true, if_neg notBelow]
  unfold stepTime
  cases given : animator.felling.maxStep with
  | none => exact greater
  | some limit =>
      have notAbove : ¬ limit < time := fun above =>
        Int.not_le.mpr (lt_iff.mp above).2.2 (le_iff.mp (within limit given)).2.2
      have smaller : Scalar.min time limit = time := by
        unfold Scalar.min
        rw [scalar_isNaN, number, if_neg Bool.false_ne_true, if_neg notAbove]
      dsimp only
      rw [smaller]
      exact greater

end Animator

namespace Animation

/-- The list after some steps of a run, and what the next step makes of the falls. -/
structure Stepwise (start : Animation Float32) (felling : Felling Float32)
    (steps : List (AnimationStep Float32)) : Prop where
  /-- No tree has ever been listed twice exactly if none has been restarted. -/
  nodup_iff : (∀ earlier, earlier <+: steps → (start.run earlier).active.Nodup) ↔
    ¬ start.Restarted steps
  doubled : ∀ id reference, (start.run steps).Restarts (.start id reference) →
    1 < ((start.run steps).step (.start id reference)).active.count id
  /-- A falling tree is moved on as many times as it is listed. -/
  moved : ∀ id tree fall time, (start.run steps).tree? id = some tree →
    tree.phase = .falling fall →
      0 < (start.run steps).active.count id ∧
      ((start.run steps).step (.update time)).tree? id = some
        ((·.advance ((start.run steps).animator.stepTime time))^[(start.run steps).active.count id]
          tree)
  /-- Without a restart it is moved on once. -/
  once : ¬ start.Restarted steps → ∀ id tree fall time, (start.run steps).tree? id = some tree →
    tree.phase = .falling fall →
      ∃ after, ((start.run steps).step (.update time)).tree? id = some after ∧
        after.phase.fall? = some
          { fall with
            elapsed := Scalar.clamp (fall.elapsed +
              (start.run steps).animator.stepTime time / felling.durationSecs) 0 1 }
  settled : ¬ start.Restarted steps → ∀ id time,
    id ∈ ((start.run steps).step (.update time)).active →
      ∃ tree fall, ((start.run steps).step (.update time)).tree? id = some tree ∧
        tree.phase = .falling fall
  nonneg : ∀ time, 0 ≤ (start.run steps).animator.stepTime time
  limited : ∀ time limit, felling.maxStep = some limit →
    (start.run steps).animator.stepTime time ≤ limit
  unlimited : ∀ time, 0 < time → (∀ limit, felling.maxStep = some limit → time ≤ limit) →
    (start.run steps).animator.stepTime time = time

/-- Whatever trees are started, moved on and put back upright, no tree is listed twice and every
step moves every falling tree on once exactly as long as no tree is restarted while it is listed. -/
theorem stepwise_of_run {felling : Felling Float32} (valid : felling.validate = .ok ())
    {stand : Stand Float32} (ids : ∀ id tree, stand.tree? id = some tree → tree.id = id)
    (still : ∀ id tree, stand.tree? id = some tree → tree.phase.isFalling = false)
    (steps : List (AnimationStep Float32)) :
    Stepwise { animator := { felling }, stand } felling steps := by
  have sound := felling.validate_eq_ok_iff.mp valid
  have positive := (Felling.timed_of_validate valid).positive
  have begun : Listed { animator := { felling }, stand } felling := by
    have idle : ∀ id tree fall, stand.tree? id = some tree → tree.phase ≠ .falling fall := by
      intro id tree fall found falling
      have down := still id tree found
      rw [falling] at down
      cases down
    refine ⟨rfl, ids, ?_, ?_⟩
    · intro id tree fall found falling
      exact (idle id tree fall found falling).elim
    · intro id tree fall found falling
      exact (idle id tree fall found falling).elim
  have listed := begun.run steps
  have nodup_iff := nodup_active_run_iff begun List.nodup_nil steps
  have nodup : ¬ Restarted { animator := { felling }, stand } steps →
      (run { animator := { felling }, stand } steps).active.Nodup :=
    fun fresh => nodup_iff.mpr fresh steps List.prefix_rfl
  refine ⟨nodup_iff, ?_, ?_, ?_, ?_, ?_, ?_, ?_⟩
  · intro id reference restarts
    exact listed.one_lt_count restarts
  · intro id tree fall time found falling
    refine ⟨listed.count_pos found falling, ?_⟩
    rw [tree?_update, found]
    rfl
  · intro fresh id tree fall time found falling
    exact listed.fall?_update positive (nodup fresh) found falling time
  · intro fresh id time member
    exact falling_of_mem_active_update (nodup fresh) member
  · intro time
    exact Animator.stepTime_nonneg _ time
  · intro time limit given
    rw [← listed.same] at sound given
    exact Animator.stepTime_le_limit sound given
  · intro time above within
    rw [← listed.same] at within
    exact Animator.stepTime_of_pos above within

/-- A single upright tree. -/
def lone : Animation Float32 where
  animator := { felling := .standard }
  stand := { trees := #[{ id := 0, position := ⟨5, 0, 0⟩, trunkRadius := 0.2, phase := .standing }] }

/-- The tree begins to fall, is put back upright and begins to fall again. -/
def restart : List (AnimationStep Float32) :=
  [.start 0 ⟨0, 0, 0⟩, .raise 0, .start 0 ⟨0, 0, 0⟩]

theorem stepwise_of_run_restart :
    (Felling.standard : Felling Float32).validate = .ok () ∧
      Stepwise lone .standard restart := by
  have only : ∀ id tree, lone.stand.tree? id = some tree →
      tree.id = id ∧ tree.phase.isFalling = false := by
    intro id tree found
    cases id with
    | zero =>
        cases found
        exact ⟨rfl, rfl⟩
    | succ id => cases found
  exact ⟨rfl, stepwise_of_run rfl (fun id tree found => (only id tree found).1)
    (fun id tree found => (only id tree found).2) restart⟩

/-- The tree is listed twice then, and half a second takes half of the fall of two seconds. -/
theorem active_restart :
    (lone.run restart).active = [0, 0] ∧
      (((lone.run restart).step (.update 0.5)).tree? 0).bind (·.phase.fall?.map (·.elapsed)) =
        some 0.5 ∧
      (lone.run restart).animator.stepTime 0.5 / Felling.standard.durationSecs = 0.25 := by
  decide +kernel

end Animation

end Grove
