import Grove.Forest.Fall
import Grove.Proofs.Instance.Registry

/-!
# Moving a stand on

One step of the animation moves every listed tree that is falling on, and places its slots anew by
one rotation. Written out tree by tree and slot by slot, the order of the list plays no role.
-/

set_option autoImplicit false

namespace Grove

variable {α : Type} [Scalar α]

def Phase.advance (phase : Phase α) (time : α) : Phase α :=
  match phase with
  | .falling fall => (fall.advance time).phase
  | phase => phase

def Tree.advance (tree : Tree α) (time : α) : Tree α :=
  { tree with phase := tree.phase.advance time }

/-- The rotation by which a step places the slots of a tree anew, if it is falling. -/
def Tree.rotation? (tree : Tree α) (time : α) : Option (Mat4 α) :=
  match tree.phase with
  | .falling fall => some ((fall.advance time).rotation tree.position)
  | _ => none

namespace Phase

omit [Scalar α] in
theorem isFalling_eq_true_iff {phase : Phase α} :
    phase.isFalling = true ↔ ∃ fall, phase = .falling fall := by
  cases phase <;> simp [isFalling]

omit [Scalar α] in
theorem isStanding_eq_true_iff {phase : Phase α} :
    phase.isStanding = true ↔ phase = .standing := by
  cases phase <;> simp [isStanding]

theorem isStanding_advance (phase : Phase α) (time : α) :
    (phase.advance time).isStanding = phase.isStanding := by
  cases phase with
  | standing => rfl
  | falling fall =>
      change (fall.advance time).phase.isStanding = false
      unfold Fall.phase
      split <;> rfl
  | felled fall => rfl

theorem fall?_phase (fall : Fall α) : fall.phase.fall? = some fall := by
  unfold Fall.phase
  split <;> rfl

end Phase

namespace Stand

/-- The rotation by which a step places the slots of a listed tree anew. -/
def rotation? (stand : Stand α) (time : α) (ids : List TreeId) (id : TreeId) : Option (Mat4 α) :=
  if id ∈ ids then (stand.tree? id).bind (·.rotation? time) else none

def rotated (rotation : Option (Mat4 α)) (content : Slot α) : Slot α :=
  match rotation with
  | some rotation => { content with live := rotation * content.base, queued := true }
  | none => content

@[simp] theorem owner_rotated (rotation : Option (Mat4 α)) (content : Slot α) :
    (rotated rotation content).owner = content.owner := by
  unfold rotated
  split <;> rfl

omit [Scalar α] in
theorem tree?_setPhase (stand : Stand α) (id other : TreeId) (phase : Phase α) :
    (stand.setPhase id phase).tree? other =
      if id = other then (stand.tree? other).map fun tree => { tree with phase }
      else stand.tree? other := by
  simp only [tree?, setPhase, Array.getElem?_modify]

theorem advanceTree_of_falling {stand : Stand α} {id : TreeId} {tree : Tree α} {fall : Fall α}
    (found : stand.tree? id = some tree) (falling : tree.phase = .falling fall) (time : α) :
    stand.advanceTree time id =
      (!(fall.advance time).isOver,
        { stand with
          registry := (stand.registry.moveOwned id
            ((fall.advance time).rotation tree.position * ·)).2 }.setPhase id
              (fall.advance time).phase) := by
  unfold advanceTree
  rw [found]
  dsimp only
  rw [falling]

theorem advanceTree_of_not_falling {stand : Stand α} {id : TreeId}
    (idle : ∀ tree, stand.tree? id = some tree → tree.phase.isFalling = false) (time : α) :
    stand.advanceTree time id = (false, stand) := by
  unfold advanceTree
  cases found : stand.tree? id with
  | none => rfl
  | some tree =>
      have still := idle tree found
      dsimp only
      cases phase : tree.phase with
      | falling fall =>
          rw [phase] at still
          cases still
      | standing => rfl
      | felled fall => rfl

omit [Scalar α] in
theorem falling_or_idle (stand : Stand α) (id : TreeId) :
    (∃ tree fall, stand.tree? id = some tree ∧ tree.phase = .falling fall) ∨
    ∀ tree, stand.tree? id = some tree → tree.phase.isFalling = false := by
  cases found : stand.tree? id with
  | none => exact .inr fun tree impossible => by cases impossible
  | some tree =>
      cases falling : tree.phase with
      | falling fall => exact .inl ⟨tree, fall, rfl, falling⟩
      | standing => exact .inr fun other same => by cases same; rw [falling]; rfl
      | felled fall => exact .inr fun other same => by cases same; rw [falling]; rfl

theorem advance_of_not_falling {tree : Tree α} (idle : tree.phase.isFalling = false) (time : α) :
    tree.advance time = tree := by
  obtain ⟨id, position, trunkRadius, phase⟩ := tree
  cases phase with
  | falling fall => cases idle
  | standing => rfl
  | felled fall => rfl

theorem rotation?_of_not_falling {tree : Tree α} (idle : tree.phase.isFalling = false) (time : α) :
    tree.rotation? time = none := by
  obtain ⟨id, position, trunkRadius, phase⟩ := tree
  cases phase with
  | falling fall => cases idle
  | standing => rfl
  | felled fall => rfl

theorem tree?_advanceTree (stand : Stand α) (time : α) (id other : TreeId) :
    (stand.advanceTree time id).2.tree? other =
      if id = other then (stand.tree? other).map (·.advance time) else stand.tree? other := by
  rcases stand.falling_or_idle id with ⟨tree, fall, found, falling⟩ | idle
  · rw [advanceTree_of_falling found falling]
    change (Stand.setPhase _ id _).tree? other = _
    rw [tree?_setPhase]
    split
    · rename_i same
      subst same
      change (stand.tree? id).map _ = _
      rw [found]
      simp [Tree.advance, Phase.advance, falling]
    · rfl
  · rw [advanceTree_of_not_falling idle]
    split
    · rename_i same
      subst same
      cases found : stand.tree? id with
      | none => rfl
      | some tree => exact congrArg some (advance_of_not_falling (idle tree found) time).symm
    · rfl

theorem advanceTree_falling (stand : Stand α) (time : α) (id : TreeId) :
    (stand.advanceTree time id).1 =
      ((stand.tree? id).map (·.advance time)).any (·.phase.isFalling) := by
  rcases stand.falling_or_idle id with ⟨tree, fall, found, falling⟩ | idle
  · rw [advanceTree_of_falling found falling, found]
    simp only [Option.map_some, Option.any_some, Tree.advance, Phase.advance, falling]
    unfold Fall.phase
    cases (fall.advance time).isOver <;> rfl
  · rw [advanceTree_of_not_falling idle]
    cases found : stand.tree? id with
    | none => rfl
    | some tree =>
        rw [Option.map_some, advance_of_not_falling (idle tree found), Option.any_some,
          idle tree found]

theorem advanceTree_built {stand : Stand α} {renderer : Renderer α}
    (built : stand.registry.Built renderer) (time : α) (id : TreeId) :
    (stand.advanceTree time id).2.registry.Built renderer := by
  rcases stand.falling_or_idle id with ⟨tree, fall, found, falling⟩ | idle
  · rw [advanceTree_of_falling found falling]
    exact built.moveOwned id _
  · rw [advanceTree_of_not_falling idle]
    exact built

private theorem slot?_advanceTree {stand : Stand α} {renderer : Renderer α}
    (built : stand.registry.Built renderer) (time : α) (id : TreeId) (category : Category)
    (slot : Nat) :
    (stand.advanceTree time id).2.registry.slot? category slot =
      (stand.registry.slot? category slot).map fun content =>
        rotated (stand.rotation? time [id] content.owner) content := by
  rcases stand.falling_or_idle id with ⟨tree, fall, found, falling⟩ | idle
  · rw [advanceTree_of_falling found falling]
    change (stand.registry.moveOwned id _).2.slot? category slot = _
    rw [Registry.slot?_moveOwned built.consistent]
    congr 1
    funext content
    unfold rotation?
    by_cases owned : content.owner = id
    · obtain ⟨handle, known, -⟩ := built.uploaded category
      rw [if_pos owned, owned, if_pos (List.mem_singleton_self id), found]
      simp only [Option.bind_some, Tree.rotation?, falling, rotated, Batch.moved, Batch.flagged,
        known, Option.isSome_some, Bool.or_true]
    · rw [if_neg owned, if_neg fun member => owned (List.mem_singleton.mp member)]
      rfl
  · rw [advanceTree_of_not_falling idle]
    have still : ∀ owner, stand.rotation? time [id] owner = none := by
      intro owner
      unfold rotation?
      split
      · rename_i member
        rw [List.mem_singleton.mp member]
        cases found : stand.tree? id with
        | none => rfl
        | some tree => exact rotation?_of_not_falling (idle tree found) time
      · rfl
    cases stand.registry.slot? category slot with
    | none => rfl
    | some content =>
        rw [Option.map_some, still]
        rfl

/-! ## Steps of a list of trees -/

theorem advanceTrees_built {stand : Stand α} {renderer : Renderer α}
    (built : stand.registry.Built renderer) (time : α) (ids : List TreeId) :
    (stand.advanceTrees time ids).2.registry.Built renderer := by
  induction ids generalizing stand with
  | nil => exact built
  | cons id ids induction => exact induction (advanceTree_built built time id)

theorem tree?_advanceTrees (stand : Stand α) (time : α) {ids : List TreeId}
    (nodup : ids.Nodup) (other : TreeId) :
    (stand.advanceTrees time ids).2.tree? other =
      if other ∈ ids then (stand.tree? other).map (·.advance time) else stand.tree? other := by
  induction ids generalizing stand with
  | nil => rfl
  | cons id ids induction =>
      obtain ⟨fresh, nodup⟩ := List.nodup_cons.mp nodup
      change ((stand.advanceTree time id).2.advanceTrees time ids).2.tree? other = _
      rw [induction _ nodup, tree?_advanceTree]
      by_cases isFirst : id = other
      · subst isFirst
        rw [if_neg fresh, if_pos rfl, if_pos (List.mem_cons_self ..)]
      · rw [if_neg isFirst]
        simp only [List.mem_cons, Ne.symm isFirst, false_or]

theorem advanceTrees_falling (stand : Stand α) (time : α) {ids : List TreeId}
    (nodup : ids.Nodup) :
    (stand.advanceTrees time ids).1 =
      ids.filter fun id => ((stand.tree? id).map (·.advance time)).any (·.phase.isFalling) := by
  induction ids generalizing stand with
  | nil => rfl
  | cons id ids induction =>
      obtain ⟨fresh, nodup⟩ := List.nodup_cons.mp nodup
      have rest : ((stand.advanceTree time id).2.advanceTrees time ids).1 =
          ids.filter fun id =>
            ((stand.tree? id).map (·.advance time)).any (·.phase.isFalling) := by
        rw [induction _ nodup]
        apply List.filter_congr
        intro other member
        have different : id ≠ other := by
          intro same
          exact fresh (same ▸ member)
        rw [tree?_advanceTree, if_neg different]
      change (if (stand.advanceTree time id).1 then
        id :: ((stand.advanceTree time id).2.advanceTrees time ids).1
        else ((stand.advanceTree time id).2.advanceTrees time ids).1) = _
      rw [rest, advanceTree_falling, List.filter_cons]

/-- The slots of every listed tree that falls are placed anew once. -/
theorem slot?_advanceTrees {stand : Stand α} {renderer : Renderer α}
    (built : stand.registry.Built renderer) (time : α) {ids : List TreeId} (nodup : ids.Nodup)
    (category : Category) (slot : Nat) :
    (stand.advanceTrees time ids).2.registry.slot? category slot =
      (stand.registry.slot? category slot).map fun content =>
        rotated (stand.rotation? time ids content.owner) content := by
  induction ids generalizing stand with
  | nil =>
      change stand.registry.slot? category slot = _
      cases stand.registry.slot? category slot <;> rfl
  | cons id ids induction =>
      obtain ⟨fresh, nodup⟩ := List.nodup_cons.mp nodup
      change ((stand.advanceTree time id).2.advanceTrees time ids).2.registry.slot? category
        slot = _
      rw [induction (advanceTree_built built time id) nodup, slot?_advanceTree built,
        Option.map_map]
      congr 1
      funext content
      change rotated _ (rotated _ content) = _
      rw [owner_rotated]
      unfold rotation?
      by_cases isFirst : id = content.owner
      · rw [isFirst] at fresh ⊢
        rw [if_neg fresh, if_pos (List.mem_singleton_self _), if_pos (List.mem_cons_self ..)]
        rfl
      · rw [tree?_advanceTree, if_neg isFirst]
        have apart : ¬ content.owner ∈ [id] := fun member =>
          isFirst (List.mem_singleton.mp member).symm
        rw [if_neg apart]
        simp only [List.mem_cons, Ne.symm isFirst, false_or]
        rfl

end Stand

end Grove
