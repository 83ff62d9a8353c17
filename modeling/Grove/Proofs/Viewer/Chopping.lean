import Grove.Proofs.Viewer.Shown

/-!
# Chopping the tree that is seen

The tree that is seen at a point stands or falls, for only felled trees are looked through. Chopping
it begins a fall exactly if it stands, and it is seen at the same point after that. So the menu is
offered for falling trees as well, and chopping does nothing to them. However long the menu stays
open, chopping begins a fall exactly if the tree stood when the menu was opened.
-/

set_option autoImplicit false

namespace Grove

variable {α : Type} [Scalar α]

omit [Scalar α] in
theorem Phase.standing_or_falling {phase : Phase α} (unfelled : phase.isFelled = false) :
    phase = .standing ∨ ∃ fall, phase = .falling fall := by
  cases phase with
  | standing => exact .inl rfl
  | falling fall => exact .inr ⟨fall, rfl⟩
  | felled fall => cases unfelled

/-! ## What chopping leaves as it is -/

namespace Population

private theorem registry_fell (population : Population α) (id : TreeId) (reference : Vec3 α) :
    (population.fell id reference).2.registry = population.registry := by
  rcases population.standing_or_not id with ⟨tree, found, standing⟩ | down
  · rw [fell_of_standing found standing]
    rfl
  · rw [fell_of_not_standing down]

/-- A tree that begins to fall can still be picked. -/
theorem pickable_fell (population : Population α) (id : TreeId) (reference : Vec3 α) :
    (population.fell id reference).2.pickable = population.pickable := by
  rcases population.standing_or_not id with ⟨tree, found, standing⟩ | down
  · rw [fell_of_standing found standing]
    funext other
    unfold pickable tree?
    dsimp only
    rw [Stand.tree?_setPhase]
    split
    · rename_i same
      subst same
      simp [found, standing, Tree.pickable, Phase.isFelled]
    · rfl
  · rw [fell_of_not_standing down]

private theorem pick?_fell (population : Population α) (id : TreeId) (reference : Vec3 α)
    (renderer : Renderer α) (view : View α) (screen : Vec2 α) :
    (population.fell id reference).2.pick? renderer view screen =
      population.pick? renderer view screen := by
  unfold pick?
  rw [registry_fell, pickable_fell]

end Population

/-! ## Which trees can be chopped -/

namespace Scene

/-- Whether there is a tree of this number that stands. -/
def isStanding (scene : Scene α) (id : TreeId) : Bool :=
  (scene.tree? id).any (·.phase.isStanding)

omit [Scalar α] in
private theorem isStanding_eq_true_iff (scene : Scene α) (id : TreeId) :
    scene.isStanding id = true ↔ ∃ tree, scene.tree? id = some tree ∧ tree.phase = .standing := by
  simp [isStanding, Option.any_eq_true, Phase.isStanding_eq_true_iff]

/-- Time alone makes no tree fall. -/
theorem isStanding_run {scene : Scene α} (sound : scene.Sound) (times : List α) (id : TreeId) :
    (scene.run (times.map .update)).isStanding id = scene.isStanding id := by
  induction times generalizing scene with
  | nil => rfl
  | cons time times ih =>
      refine (ih (sound.update time)).trans ?_
      unfold isStanding
      rw [tree?_update sound]
      cases scene.tree? id with
      | none => rfl
      | some tree => exact tree.phase.isStanding_advance _

end Scene

namespace Viewer

/-- Chopping a tree does not change which tree is seen, whatever the point. -/
theorem treeUnder?_chop (viewer : Viewer α) (id : TreeId) (screen size : Vec2 α) :
    (viewer.chop id).2.treeUnder? screen size = viewer.treeUnder? screen size :=
  viewer.population.pick?_fell id viewer.actor viewer.renderer _ screen

private theorem chop_fst (viewer : Viewer α) (id : TreeId) :
    (viewer.chop id).1 = viewer.scene.isStanding id :=
  Bool.eq_iff_iff.mpr
    ((viewer.population.fell_eq_true_iff id viewer.actor).trans
      (viewer.scene.isStanding_eq_true_iff id).symm)

private theorem chop_of_not_standing {viewer : Viewer α} {id : TreeId}
    (down : ∀ tree, viewer.scene.tree? id = some tree → tree.phase ≠ .standing) :
    viewer.chop id = (false, viewer) := by
  have refused : viewer.population.fell id viewer.actor = (false, viewer.population) :=
    Population.fell_of_not_standing down viewer.actor
  unfold chop
  rw [refused]

/-- A tree that has been chopped falls away from the actor. -/
theorem tree?_chop_of_standing {viewer : Viewer α} {id : TreeId} {tree : Tree α}
    (found : viewer.scene.tree? id = some tree) (standing : tree.phase = .standing) :
    (viewer.chop id).2.scene.tree? id = some { tree with
      phase := .falling
        (.start viewer.population.animator.felling tree.position viewer.actor) } := by
  have felled := Scene.tree?_fell_of_standing found standing viewer.actor id
  rw [if_pos rfl] at felled
  exact felled

/-- No tree can be chopped twice. -/
theorem chop_again (viewer : Viewer α) (id : TreeId) :
    (viewer.chop id).2.chop id = (false, (viewer.chop id).2) := by
  refine chop_of_not_standing fun tree found => ?_
  rcases viewer.population.standing_or_not id with ⟨upright, known, standing⟩ | down
  · cases found.symm.trans (tree?_chop_of_standing known standing)
    nofun
  · rw [chop_of_not_standing down] at found
    exact down tree found

/-- What a point of the viewport offers at which a tree is seen. -/
structure Offers (viewer : Viewer α) (screen size : Vec2 α) (id : TreeId) : Prop where
  unfelled : ∃ tree, viewer.population.tree? id = some tree ∧ tree.id = id ∧
    (tree.phase = .standing ∨ ∃ fall, tree.phase = .falling fall)
  /-- Chopping a tree that stands begins its fall, away from the actor. -/
  begins : ∀ tree, viewer.population.tree? id = some tree → tree.phase = .standing →
    (viewer.chop id).1 = true ∧ (viewer.chop id).2.population.tree? id = some { tree with
      phase := .falling
        (.start viewer.population.animator.felling tree.position viewer.actor) }
  /-- Chopping a tree that falls does nothing. -/
  refuses : ∀ tree fall, viewer.population.tree? id = some tree → tree.phase = .falling fall →
    viewer.chop id = (false, viewer)
  begins_iff : (viewer.chop id).1 = true ↔ id ∉ viewer.population.animator.active
  /-- The chopped tree is seen at the same point as before. -/
  seen : (viewer.chop id).2.treeUnder? screen size = some id
  again : (viewer.chop id).2.chop id = (false, (viewer.chop id).2)

private theorem offers_of_treeUnder? {viewer : Viewer α} (sound : viewer.scene.Sound)
    {screen size : Vec2 α} {id : TreeId} (seen : viewer.treeUnder? screen size = some id) :
    viewer.Offers screen size id := by
  obtain ⟨tree, found, unfelled⟩ := viewer.scene.exists_of_pick? seen
  have phase := Phase.standing_or_falling unfelled
  have active := sound.mem_active_iff id
  refine ⟨⟨tree, found, sound.ids id tree found, phase⟩, ?_, ?_, ?_,
    (viewer.treeUnder?_chop id screen size).trans seen, viewer.chop_again id⟩
  · intro other known standing
    refine ⟨?_, tree?_chop_of_standing known standing⟩
    rw [chop_fst]
    exact (viewer.scene.isStanding_eq_true_iff id).mpr ⟨other, known, standing⟩
  · intro other fall known falling
    refine chop_of_not_standing fun same isSame standing => ?_
    cases known.symm.trans isSame
    cases falling.symm.trans standing
  · rw [chop_fst, Scene.isStanding_eq_true_iff]
    refine Iff.trans ?_ (not_congr active).symm
    constructor
    · rintro ⟨other, known, standing⟩ ⟨same, isSame, falling⟩
      cases known.symm.trans isSame
      rw [standing] at falling
      cases falling
    · intro idle
      refine ⟨tree, found, phase.resolve_right fun falling => ?_⟩
      exact idle ⟨tree, found, Phase.isFalling_eq_true_iff.mpr falling⟩

end Viewer

/-! ## A menu that stays open -/

/-- Whether an event opens the menu of the tree under the pointer. -/
def Event.opensMenu : Event α → Bool
  | .act _ (.openMenu _) => true
  | _ => false

namespace Viewer

private theorem passes_advance (viewer : Viewer α) (time : α) :
    (viewer.advance time).menu = viewer.menu ∧
      ∃ times : List α, (viewer.advance time).scene = viewer.scene.run (times.map .update) := by
  unfold advance
  split
  · exact ⟨rfl, [], rfl⟩
  · exact ⟨rfl, [Scalar.clamp time 0 maxFrameTime], rfl⟩

/-- As long as the menu stays open, nothing happens to the forest but that time passes. -/
theorem passes_of_respond {viewer next : Viewer α} {event : Event α} {id : TreeId}
    (waits : event.opensMenu = false) (responded : viewer.respond event = .ok next)
    (opened : next.menu = some id) :
    viewer.menu = some id ∧
      ∃ times : List α, next.scene = viewer.scene.run (times.map .update) := by
  cases event with
  | settle | look =>
      cases responded
      exact ⟨opened, [], rfl⟩
  | pass time =>
      cases responded
      obtain ⟨menu, passed⟩ := viewer.passes_advance time
      exact ⟨menu.symm.trans opened, passed⟩
  | act canvas action =>
      -- Planting, a click, chopping and closing leave no menu open.
      cases action with
      | regrow =>
          obtain ⟨_, regrown, responded⟩ := Except.bind_eq_ok_iff.mp responded
          cases responded
          obtain ⟨scene, menu⟩ | ⟨_, _, _, _, _, closed⟩ := regrow_eq_ok regrown
          · exact ⟨menu.symm.trans opened, [], scene⟩
          · cases closed.symm.trans opened
      | openMenu pointer => cases waits
      | click pointer =>
          cases responded
          unfold moveActor at opened
          dsimp only at opened
          split at opened <;> cases opened
      | chop =>
          cases responded
          unfold chopSelected at opened
          split at opened
          · rename_i closed
            cases closed.symm.trans opened
          · cases opened
      | closeMenu =>
          cases responded
          cases opened
      | togglePause | adoptSpecies | resetConfig | edit | writeRules | drag | scroll =>
          cases responded
          exact ⟨opened, [], rfl⟩

/-- A menu that is open at the end, and was not opened on the way, has been open all the time. -/
theorem passes_of_respondAll {viewer later : Viewer α} {events : List (Event α)} {id : TreeId}
    (waits : ∀ event ∈ events, event.opensMenu = false)
    (responded : viewer.respondAll events = .ok later) (opened : later.menu = some id) :
    viewer.menu = some id ∧
      ∃ times : List α, later.scene = viewer.scene.run (times.map .update) := by
  induction events generalizing viewer with
  | nil =>
      cases responded
      exact ⟨opened, [], rfl⟩
  | cons event rest ih =>
      obtain ⟨next, first, responded⟩ := Except.bind_eq_ok_iff.mp responded
      obtain ⟨waits, waitsLater⟩ := List.forall_mem_cons.mp waits
      obtain ⟨stillOpen, times, passed⟩ := ih waitsLater responded
      obtain ⟨wasOpen, before, same⟩ := passes_of_respond waits first stillOpen
      refine ⟨wasOpen, before ++ times, ?_⟩
      rw [passed, same, List.map_append, Scene.run_append]

/-- Whatever happens to the viewer of a configuration, a tree that is seen at a point stands or
falls, and chopping it begins a fall exactly if it stands; it stays in sight, and cannot be chopped
again. A menu may stay open for any time, and yet chopping begins a fall exactly if it would have
begun one as soon as the menu was opened. -/
theorem offers_of_respondAll {config : Configuration α} {entropy : ChaCha}
    {viewer later : Viewer α} (opened : ofConfig config entropy = .ok viewer)
    {events : List (Event α)} (responded : viewer.respondAll events = .ok later) :
    (∀ screen size id, later.treeUnder? screen size = some id → later.Offers screen size id) ∧
    ∀ (canvas : Canvas α) (pointer : Vec2 α) (waiting : List (Event α)) (waited : Viewer α)
      (id : TreeId), (∀ event ∈ waiting, event.opensMenu = false) →
      later.respondAll (.act canvas (.openMenu pointer) :: waiting) = .ok waited →
      waited.menu = some id →
        later.treeUnder? (canvas.toLocal pointer) canvas.size = some id ∧
        (waited.chop id).1 = (later.chop id).1 ∧
        ∀ window, waited.respond (.act window .chop) =
          .ok { (waited.chop id).2 with menu := none } := by
  obtain ⟨sound, -, -⟩ := ((descended_of_ofConfig opened).respondAll responded).reached
  refine ⟨fun _ _ _ seen => offers_of_treeUnder? sound seen, ?_⟩
  intro canvas pointer waiting waited id waits responded stillOpen
  obtain ⟨first, picked, responded⟩ := Except.bind_eq_ok_iff.mp responded
  cases picked
  obtain ⟨seen, times, passed⟩ := passes_of_respondAll waits responded stillOpen
  refine ⟨seen, ?_, fun window => ?_⟩
  · -- The forest is the one in which the menu was opened, some time later.
    rw [chop_fst, chop_fst, passed]
    exact Scene.isStanding_run sound times id
  · change Except.ok waited.chopSelected = _
    rw [chopSelected, stillOpen]

end Viewer

/-! ## A tree that is offered while it falls -/

namespace Charted

/-- The menu of the pole is opened, and the pole is chopped. -/
def chopTrunk : List (Canvas Charted × Step Charted) :=
  selectTrunk ++ [(canvas, .action .chop)]

end Charted

namespace Viewer

open Charted

/-- The trunk of the pole is seen before it is chopped, and also while it falls. -/
theorem exists_chopTrunk : ∃ viewer later : Viewer Charted,
    ofConfig pole (.ofSeed 0) = .ok viewer ∧ viewer.run chopTrunk = .ok later ∧
      viewer.treeUnder? (canvas.toLocal trunk) canvas.size = some 0 ∧
      later.treeUnder? (canvas.toLocal trunk) canvas.size = some 0 ∧
      later.scene.isStanding 0 = false := by
  have checked : ((ofConfig pole (.ofSeed 0)).toOption.any fun viewer =>
      (viewer.run chopTrunk).toOption.any fun later => decide
        (viewer.treeUnder? (canvas.toLocal trunk) canvas.size = some 0 ∧
          later.treeUnder? (canvas.toLocal trunk) canvas.size = some 0 ∧
          later.scene.isStanding 0 = false)) = true := by
    decide +kernel
  obtain ⟨viewer, opened, checked⟩ := Except.exists_of_any checked
  obtain ⟨later, ran, checked⟩ := Except.exists_of_any checked
  exact ⟨viewer, later, opened, ran, of_decide_eq_true checked⟩

/-- The pole is offered before it is chopped, and again while it falls. A second may pass while the
menu is open. -/
theorem offers_of_respondAll_pole : ∃ viewer later waited : Viewer Charted,
    ofConfig pole (.ofSeed 0) = .ok viewer ∧
      viewer.Offers (canvas.toLocal trunk) canvas.size 0 ∧
      viewer.respondAll (.act canvas (.openMenu trunk) :: Event.frame 1) = .ok waited ∧
      waited.menu = some 0 ∧ (waited.chop 0).1 = (viewer.chop 0).1 ∧
      viewer.run chopTrunk = .ok later ∧
      later.Offers (canvas.toLocal trunk) canvas.size 0 := by
  obtain ⟨viewer, later, opened, ran, seen, seenAgain, -⟩ := exists_chopTrunk
  obtain ⟨offers, waits⟩ := offers_of_respondAll opened (rfl : viewer.respondAll [] = .ok viewer)
  have stillOpen : (Viewer.frame { viewer with
      menu := viewer.treeUnder? (canvas.toLocal trunk) canvas.size } 1).menu = some 0 :=
    (passes_advance _ _).1.trans seen
  obtain ⟨-, same, -⟩ := waits canvas trunk (Event.frame 1) _ 0 (by decide) rfl stillOpen
  exact ⟨viewer, later, _, opened, offers _ _ 0 seen, rfl, stillOpen, same, ran,
    (offers_of_respondAll opened (respondAll_of_run ran)).1 _ _ 0 seenAgain⟩

/-- A tree that falls already is offered to be chopped, and chopping it does not begin a fall. -/
theorem offered_while_falling : ∃ viewer later : Viewer Charted,
    pole.validate = .ok () ∧ ofConfig pole (.ofSeed 0) = .ok viewer ∧
      viewer.run chopTrunk = .ok later ∧
      later.treeUnder? (canvas.toLocal trunk) canvas.size = some 0 ∧
      later.scene.isStanding 0 = false ∧ (later.chop 0).1 = false := by
  obtain ⟨viewer, later, opened, ran, -, seen, down⟩ := exists_chopTrunk
  exact ⟨viewer, later, rfl, opened, ran, seen, down, (later.chop_fst 0).trans down⟩

end Viewer

end Grove
