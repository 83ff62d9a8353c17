import Grove.Proofs.Single.Factors
import Grove.Proofs.Viewer.Shown
import Grove.Viewer.Paint

/-!
# What is painted

Every uploaded instance that is seen is painted once, coloured by the tree that owns its slot, and
the farthest ones come first. At equal depth the painter keeps the order of the slots. The actor
comes last.
-/

set_option autoImplicit false

namespace Grove

/-! ## Stable sorting -/

section

variable {β : Type} {le : β → β → Bool}
  (trans : ∀ first second third : β, le first second → le second third → le first third)
  (total : ∀ first second : β, (le first second || le second first) = true)

include trans total

/-- Sorting does not move elements past each other that none comes before. -/
theorem filter_mergeSort {alike : β → Bool}
    (level : ∀ first second, alike first → alike second → le first second) (elements : List β) :
    (elements.mergeSort le).filter alike = elements.filter alike := by
  have ordered : (elements.filter alike).Pairwise fun first second => le first second := by
    refine List.pairwise_of_forall_mem_list ?_
    intro first member second other
    exact level first second (List.mem_filter.mp member).2 (List.mem_filter.mp other).2
  have kept : (elements.filter alike).Sublist ((elements.mergeSort le).filter alike) := by
    have within := (List.sublist_mergeSort trans total ordered List.filter_sublist).filter alike
    simpa only [List.filter_filter, Bool.and_self] using within
  exact (kept.eq_of_length ((List.mergeSort_perm elements le).filter alike).length_eq.symm).symm

/-- A sorted list keeps the order in which elements stood that none comes before. -/
theorem pairwise_mergeSort_of_pairwise {before : β → β → Prop} {elements : List β}
    (ordered : elements.Pairwise before) :
    (elements.mergeSort le).Pairwise fun first second =>
      le first second ∧ (le second first → before first second) := by
  rw [List.pairwise_iff_forall_sublist]
  intro first second within
  have sorted := List.pairwise_iff_forall_sublist.mp
    (List.pairwise_mergeSort trans total elements) within
  refine ⟨sorted, fun back => ?_⟩
  have self : le first first = true := by simpa using total first first
  -- Of the elements that none of the two comes before, the order has not been changed.
  have level : ∀ left right, (le first left && le left first) = true →
      (le first right && le right first) = true → le left right = true := by
    intro left right alikeLeft alikeRight
    rw [Bool.and_eq_true] at alikeLeft alikeRight
    exact trans left first right alikeLeft.2 alikeRight.1
  have kept := filter_mergeSort trans total level elements
  have among := within.filter fun element => le first element && le element first
  rw [kept, List.filter_cons_of_pos (by rw [self]; rfl),
    List.filter_cons_of_pos (by rw [sorted, back]; rfl), List.filter_nil] at among
  exact List.pairwise_iff_forall_sublist.mp ordered (among.trans List.filter_sublist)

end

private theorem filterMap_range_getElem? {β γ : Type} (elements : Array β) (choose : β → Option γ) :
    (List.range elements.size).filterMap (fun index => elements[index]?.bind choose) =
      elements.toList.filterMap choose := by
  have taken : (List.range elements.size).map (fun index => elements[index]?) =
      elements.toList.map some := by
    apply List.ext_getElem
    · simp
    · intro index _ inside
      simp only [List.length_map, Array.length_toList] at inside
      simp [inside]
  calc (List.range elements.size).filterMap (fun index => elements[index]?.bind choose)
      = ((List.range elements.size).map fun index => elements[index]?).filterMap
          (·.bind choose) := by
        rw [List.filterMap_map]
        rfl
    _ = elements.toList.filterMap choose := by
        rw [taken, List.filterMap_map]
        rfl

section

variable {α : Type} [Scalar α]

/-! ## Sights -/

namespace Lens

/-- How deep the middle of a placed branch is. -/
def middleDepth (lens : Lens α) (placement : Mat4 α) : α :=
  lens.depth (((Placement.branchEnds placement).1 + (Placement.branchEnds placement).2) * (0.5 : α))

/-- How an instance is seen: a branch as a segment between the projections of its ends, a leaf as a
disc about the projection of its centre. -/
inductive Shows (lens : Lens α) (placement : Mat4 α) (color : Color) :
    Category → Sight α → Prop
  | segment {start stop : Vec2 α}
      (bottom : lens.view.project? (Placement.branchEnds placement).1 = some start)
      (top : lens.view.project? (Placement.branchEnds placement).2 = some stop) :
      Shows lens placement color .branch
        ⟨lens.middleDepth placement,
          .segment (lens.canvas.toWindow start) (lens.canvas.toWindow stop)
            (lens.pixels (2.0 * placement.xAxis.truncate.length) (lens.middleDepth placement))
            color⟩
  | disc {center : Vec2 α} (seen : lens.view.project? placement.wAxis.truncate = some center) :
      Shows lens placement color .leaf
        ⟨lens.depth placement.wAxis.truncate,
          .disc (lens.canvas.toWindow center)
            (lens.pixels placement.xAxis.truncate.length (lens.depth placement.wAxis.truncate))
            color⟩

private theorem branch?_eq_some_iff {lens : Lens α} {placement : Mat4 α} {color : Color}
    {sight : Sight α} :
    lens.branch? placement color = some sight ↔ lens.Shows placement color .branch sight := by
  constructor
  · intro found
    obtain ⟨shape, segment, same⟩ := Option.bind_eq_some_iff.mp found
    obtain ⟨_, first, segment⟩ := Option.bind_eq_some_iff.mp segment
    obtain ⟨_, second, segment⟩ := Option.bind_eq_some_iff.mp segment
    obtain ⟨start, bottom, rfl⟩ := Option.map_eq_some_iff.mp first
    obtain ⟨stop, top, rfl⟩ := Option.map_eq_some_iff.mp second
    cases segment
    cases same
    exact .segment bottom top
  · intro shows
    cases shows with
    | segment bottom top =>
        simp only [branch?, segment?, project?, bottom, top]
        rfl

private theorem leaf?_eq_some_iff {lens : Lens α} {placement : Mat4 α} {color : Color}
    {sight : Sight α} :
    lens.leaf? placement color = some sight ↔ lens.Shows placement color .leaf sight := by
  constructor
  · intro found
    obtain ⟨shape, disc, same⟩ := Option.bind_eq_some_iff.mp found
    obtain ⟨_, shown, disc⟩ := Option.bind_eq_some_iff.mp disc
    obtain ⟨center, seen, rfl⟩ := Option.map_eq_some_iff.mp shown
    cases disc
    cases same
    exact .disc seen
  · intro shows
    cases shows with
    | disc seen =>
        simp only [leaf?, disc?, project?, seen]
        rfl

/-- A branch is seen if both its ends are, a leaf if its centre is. -/
def Sees (lens : Lens α) (category : Category) (placement : Mat4 α) : Prop :=
  match category with
  | .branch => (lens.view.project? (Placement.branchEnds placement).1).isSome = true ∧
      (lens.view.project? (Placement.branchEnds placement).2).isSome = true
  | .leaf => (lens.view.project? placement.wAxis.truncate).isSome = true

private theorem exists_shows_iff {lens : Lens α} {category : Category} {placement : Mat4 α}
    {color : Color} :
    (∃ sight, lens.Shows placement color category sight) ↔ lens.Sees category placement := by
  constructor
  · intro ⟨sight, shows⟩
    cases shows with
    | segment bottom top =>
        exact ⟨Option.isSome_of_eq_some bottom, Option.isSome_of_eq_some top⟩
    | disc seen => exact Option.isSome_of_eq_some seen
  · intro sees
    cases category with
    | branch =>
        obtain ⟨start, bottom⟩ := Option.isSome_iff_exists.mp sees.1
        obtain ⟨stop, top⟩ := Option.isSome_iff_exists.mp sees.2
        exact ⟨_, .segment bottom top⟩
    | leaf =>
        obtain ⟨center, seen⟩ := Option.isSome_iff_exists.mp sees
        exact ⟨_, .disc seen⟩

end Lens

namespace Viewer

/-- The colour of the instances of a tree. -/
def colorFor (viewer : Viewer α) (category : Category) (tree : Tree α) : Color :=
  match category with
  | .branch =>
      if viewer.menu = some tree.id then .selection
      else if tree.phase.isFelled then .felledBark
      else .bark
  | .leaf => if tree.phase.isFelled then .felledFoliage else .foliage

omit [Scalar α] in
private theorem colorOf_eq {viewer : Viewer α} {tree : Tree α}
    (found : viewer.population.tree? tree.id = some tree) (category : Category) :
    viewer.colorOf category tree.id = viewer.colorFor category tree := by
  have felled : viewer.isFelled tree.id = tree.phase.isFelled := by
    rw [isFelled, found]
    rfl
  cases category <;> simp only [colorOf, colorFor, felled]

private theorem sight?_eq_some_iff {viewer : Viewer α} {lens : Lens α} {category : Category}
    {placement : Mat4 α} {owner : TreeId} {sight : Sight α} :
    viewer.sight? lens category placement owner = some sight ↔
      lens.Shows placement (viewer.colorOf category owner) category sight := by
  cases category with
  | branch => exact Lens.branch?_eq_some_iff
  | leaf => exact Lens.leaf?_eq_some_iff

end Viewer

/-! ## Slots and what is uploaded of them -/

namespace Scene

/-- Every slot belongs to a tree. -/
def Owned (scene : Scene α) : Prop :=
  ∀ category slot content, scene.slot? category slot = some content →
    (scene.tree? content.owner).isSome = true

omit [Scalar α] in
theorem Upright.owned {scene : Scene α} {felling : Felling α} (upright : scene.Upright felling) :
    scene.Owned := by
  intro category slot content found
  exact Option.isSome_iff_exists.mpr
    ⟨_, Array.getElem?_eq_getElem (upright.stand.slots category slot content found).2⟩

theorem Owned.step {scene : Scene α} (sound : scene.Sound) (owned : scene.Owned)
    (step : ForestStep α) : (scene.step step).Owned := by
  intro category slot content found
  rw [isSome_tree?_step sound]
  cases step with
  | fell id reference =>
      rw [slot?_fell] at found
      exact owned category slot content found
  | update time =>
      rw [slot?_update sound] at found
      obtain ⟨before, known, same⟩ := Option.map_eq_some_iff.mp found
      have owner : content.owner = before.owner := by
        rw [← same]
        exact Stand.owner_rotated _ before
      exact owner ▸ owned category slot before known

theorem Owned.run {scene : Scene α} (sound : scene.Sound) (owned : scene.Owned)
    (steps : List (ForestStep α)) : (scene.run steps).Owned := by
  induction steps generalizing scene with
  | nil => exact owned
  | cons step steps induction => exact induction (sound.step step) (owned.step sound step)

omit [Scalar α] in
theorem DrawnAlone.exists_batch {scene : Scene α} (drawn : scene.DrawnAlone)
    (category : Category) :
    ∃ handle shown, (scene.population.registry.batch category).handle = some handle ∧
      scene.renderer.batch? handle = some shown ∧
      shown.instances = (scene.population.registry.batch category).slots.map (·.live) := by
  have stored : ∀ index : Nat, (scene.renderer.batches[index]?).map
      (fun shown => (shown.category, shown.instances)) = _ := fun index =>
    Array.getElem?_map.symm.trans (congrArg (·[index]?) drawn.batches)
  cases category with
  | branch =>
      obtain ⟨shown, found, same⟩ := Option.map_eq_some_iff.mp (stored 0)
      exact ⟨_, shown, drawn.branches, found, congrArg Prod.snd same⟩
  | leaf =>
      obtain ⟨shown, found, same⟩ := Option.map_eq_some_iff.mp (stored 1)
      exact ⟨_, shown, drawn.leaves, found, congrArg Prod.snd same⟩

omit [Scalar α] in
theorem DrawnAlone.uploaded?_eq {scene : Scene α} (drawn : scene.DrawnAlone)
    (category : Category) (slot : Nat) :
    scene.uploaded? category slot = (scene.slot? category slot).map (·.live) := by
  obtain ⟨handle, shown, known, found, instances⟩ := drawn.exists_batch category
  change (scene.population.registry.batch category).handle.bind
    (scene.renderer.uploaded? · slot) = _
  rw [known, Option.bind_some, Renderer.uploaded?, found, Option.bind_some, instances,
    Array.getElem?_map]
  rfl

end Scene

/-! ## The order of the slots -/

/-- Branches come before leaves, and slots of one kind in ascending order. -/
def SlotBefore (first second : Category × Nat) : Prop :=
  first.1 = .branch ∧ second.1 = .leaf ∨ first.1 = second.1 ∧ first.2 < second.2

theorem SlotBefore.ne {first second : Category × Nat} (before : SlotBefore first second) :
    first ≠ second := by
  intro same
  subst same
  obtain ⟨isBranch, isLeaf⟩ | ⟨-, less⟩ := before
  · cases isBranch.symm.trans isLeaf
  · exact Nat.lt_irrefl _ less

namespace Registry

/-- The slots of a registry, in order. -/
def slotKeys (registry : Registry α) : List (Category × Nat) :=
  [Category.branch, .leaf].flatMap fun category =>
    (List.range (registry.batch category).slots.size).map (category, ·)

omit [Scalar α] in
private theorem mem_slotKeys_iff {registry : Registry α} {key : Category × Nat} :
    key ∈ registry.slotKeys ↔ key.2 < (registry.batch key.1).slots.size := by
  obtain ⟨category, slot⟩ := key
  cases category <;> simp [slotKeys]

omit [Scalar α] in
private theorem pairwise_slotKeys (registry : Registry α) :
    registry.slotKeys.Pairwise SlotBefore := by
  refine List.pairwise_flatMap.mpr ⟨?_, ?_⟩
  · intro category _
    exact List.pairwise_map.mpr (List.pairwise_lt_range.imp fun less => .inr ⟨rfl, less⟩)
  · refine List.pairwise_pair.mpr ?_
    intro first isFirst second isSecond
    obtain ⟨_, -, rfl⟩ := List.mem_map.mp isFirst
    obtain ⟨_, -, rfl⟩ := List.mem_map.mp isSecond
    exact .inl ⟨rfl, rfl⟩

end Registry

namespace Viewer

/-- How the uploaded instance of a slot is seen, in the colour of the tree that owns the slot. -/
def Depicts (viewer : Viewer α) (lens : Lens α) (key : Category × Nat) (sight : Sight α) : Prop :=
  ∃ placement content tree, viewer.scene.uploaded? key.1 key.2 = some placement ∧
    viewer.scene.slot? key.1 key.2 = some content ∧
    viewer.population.tree? content.owner = some tree ∧
    lens.Shows placement (viewer.colorFor key.1 tree) key.1 sight

/-- How a slot is seen, if it is. -/
def picture? (viewer : Viewer α) (lens : Lens α) (key : Category × Nat) : Option (Sight α) :=
  (viewer.scene.slot? key.1 key.2).bind fun content =>
    viewer.sight? lens key.1 content.live content.owner

/-- The slots that are seen, in order, with how they are seen. -/
def pictures (viewer : Viewer α) (lens : Lens α) : List ((Category × Nat) × Sight α) :=
  viewer.population.registry.slotKeys.filterMap fun key =>
    (viewer.picture? lens key).map (key, ·)

private theorem picture?_eq_some_iff {viewer : Viewer α} (sound : viewer.scene.Sound)
    (owned : viewer.scene.Owned) {lens : Lens α} {key : Category × Nat} {sight : Sight α} :
    viewer.picture? lens key = some sight ↔ viewer.Depicts lens key sight := by
  constructor
  · intro seen
    obtain ⟨content, known, seen⟩ := Option.bind_eq_some_iff.mp seen
    obtain ⟨tree, found⟩ := Option.isSome_iff_exists.mp (owned _ _ content known)
    have same := sound.ids content.owner tree found
    refine ⟨content.live, content, tree, sound.shown _ _ content known, known, found, ?_⟩
    rw [sight?_eq_some_iff, ← same, colorOf_eq (same ▸ found)] at seen
    exact seen
  · intro depicts
    obtain ⟨placement, content, tree, uploaded, known, found, shows⟩ := depicts
    have same := sound.ids content.owner tree found
    cases (sound.shown _ _ content known).symm.trans uploaded
    rw [picture?, known, Option.bind_some, sight?_eq_some_iff, ← same, colorOf_eq (same ▸ found)]
    exact shows

private theorem mem_pictures_iff {viewer : Viewer α} {lens : Lens α} {key : Category × Nat}
    {sight : Sight α} :
    (key, sight) ∈ viewer.pictures lens ↔ viewer.picture? lens key = some sight := by
  constructor
  · intro member
    obtain ⟨other, -, same⟩ := List.mem_filterMap.mp member
    obtain ⟨_, seen, same⟩ := Option.map_eq_some_iff.mp same
    cases same
    exact seen
  · intro seen
    obtain ⟨content, known, -⟩ := Option.bind_eq_some_iff.mp seen
    refine List.mem_filterMap.mpr ⟨key, Registry.mem_slotKeys_iff.mpr ?_, ?_⟩
    · exact (Array.getElem?_eq_some_iff.mp known).1
    · rw [seen]
      rfl

private theorem pairwise_pictures (viewer : Viewer α) (lens : Lens α) :
    (viewer.pictures lens).Pairwise fun first second => SlotBefore first.1 second.1 := by
  refine List.pairwise_filterMap.mpr (viewer.population.registry.pairwise_slotKeys.imp ?_)
  intro first second before left isLeft right isRight
  obtain ⟨_, -, rfl⟩ := Option.map_eq_some_iff.mp isLeft
  obtain ⟨_, -, rfl⟩ := Option.map_eq_some_iff.mp isRight
  exact before

omit [Scalar α] in
/-- The uploaded instances of a batch are its slots in their present places. -/
theorem uploadedInstances_eq {viewer : Viewer α} (drawn : viewer.scene.DrawnAlone)
    (category : Category) :
    viewer.uploadedInstances (viewer.population.registry.batch category) =
      (viewer.population.registry.batch category).slots.toList.map
        fun content => (content.live, content.owner) := by
  obtain ⟨handle, shown, known, found, instances⟩ := drawn.exists_batch category
  change (viewer.population.registry.batch category).handle = some handle at known
  change viewer.renderer.batch? handle = some shown at found
  change shown.instances = (viewer.population.registry.batch category).slots.map (·.live)
    at instances
  rw [uploadedInstances, known, Option.bind_some, found]
  dsimp only
  rw [instances, Array.toList_map, List.zip_map']

private theorem filterMap_uploadedInstances {viewer : Viewer α} (drawn : viewer.scene.DrawnAlone)
    (lens : Lens α) (category : Category) :
    ((viewer.uploadedInstances (viewer.population.registry.batch category)).filterMap
      fun (placement, owner) => viewer.sight? lens category placement owner) =
        ((List.range (viewer.population.registry.batch category).slots.size).map
          (category, ·)).filterMap (viewer.picture? lens) := by
  rw [uploadedInstances_eq drawn, List.filterMap_map, List.filterMap_map]
  exact (filterMap_range_getElem? _
    fun content : Slot α => viewer.sight? lens category content.live content.owner).symm

/-- The sights are those of the slots that are seen, in order. -/
theorem sights_eq {viewer : Viewer α} (drawn : viewer.scene.DrawnAlone)
    (orderly : viewer.population.registry.Orderly) (lens : Lens α) :
    viewer.sights lens = (viewer.pictures lens).map (·.2) := by
  have branches : viewer.population.registry.branches.category = .branch :=
    orderly.category .branch
  have leaves : viewer.population.registry.leaves.category = .leaf := orderly.category .leaf
  have seen : (viewer.pictures lens).map (·.2) =
      viewer.population.registry.slotKeys.filterMap (viewer.picture? lens) := by
    rw [pictures, List.map_filterMap]
    congr 1
    funext key
    rw [Option.map_map]
    exact Option.map_id'
  rw [seen, Registry.slotKeys, sights, Registry.batches]
  simp only [List.flatMap_cons, List.flatMap_nil, List.append_nil, List.filterMap_append,
    branches, leaves, ← filterMap_uploadedInstances drawn]
  rfl

end Viewer

/-! ## The order of depths -/

/-- The least depth or a distance, whichever is greater. -/
def depthOf (distance : α) : α :=
  Scalar.max distance 1e-3

/-- Depths are in a linear order. The scalars as a whole need not be: in single precision, what is
not a number has no place in the order, and two zeros share one. -/
class LinearDepths (α : Type) [Scalar α] : Prop where
  idempotent : ∀ distance : α, depthOf (depthOf distance) = depthOf distance
  total : ∀ first second : α, depthOf first ≤ depthOf second ∨ depthOf second ≤ depthOf first
  trans : ∀ first second third : α, depthOf first ≤ depthOf second →
    depthOf second ≤ depthOf third → depthOf first ≤ depthOf third
  antisymm : ∀ first second : α, depthOf first ≤ depthOf second →
    depthOf second ≤ depthOf first → depthOf first = depthOf second
  lt_of_not_le : ∀ first second : α, ¬depthOf first ≤ depthOf second →
    depthOf second < depthOf first

end

namespace Single

private theorem place_depthOf (distance : Float32) :
    (depthOf distance).isNaN = false ∧ place 1e-3 ≤ place (depthOf distance) := by
  have least : (1e-3 : Float32).isNaN = false := by decide +kernel
  cases numeric : distance.isNaN with
  | true =>
      have same : depthOf distance = 1e-3 := by
        rw [depthOf, Scalar.max, scalar_isNaN, numeric, if_pos rfl]
      rw [same]
      exact ⟨least, Int.le_refl _⟩
  | false =>
      obtain ⟨number, placed⟩ := place_max numeric least
      refine ⟨number, ?_⟩
      rw [depthOf, placed]
      exact Int.le_max_right _ _

private theorem depthOf_le_iff (first second : Float32) :
    depthOf first ≤ depthOf second ↔ place (depthOf first) ≤ place (depthOf second) :=
  ⟨fun ordered => (le_iff.mp ordered).2.2, fun ordered =>
    le_iff.mpr ⟨(place_depthOf first).1, (place_depthOf second).1, ordered⟩⟩

instance : LinearDepths Float32 where
  idempotent distance := by
    obtain ⟨number, above⟩ := place_depthOf distance
    rw [depthOf, Scalar.max, scalar_isNaN, number, if_neg Bool.false_ne_true, if_neg]
    exact fun below => absurd (lt_iff.mp below).2.2 (Int.not_lt.mpr above)
  total first second := by
    simp only [depthOf_le_iff]
    exact Int.le_total _ _
  trans first second third := by
    simp only [depthOf_le_iff]
    exact Int.le_trans
  antisymm first second := by
    simp only [depthOf_le_iff]
    intro below above
    have positive : 0 < place 1e-3 := by decide +kernel
    have least := (place_depthOf first).2
    exact eq_of_place (Int.le_antisymm below above) (by omega)
  lt_of_not_le first second := by
    rw [depthOf_le_iff, Int.not_le]
    exact fun above => lt_iff.mpr ⟨(place_depthOf second).1, (place_depthOf first).1, above⟩

end Single

instance : LinearDepths Charted where
  idempotent := (inferInstance : LinearDepths Float32).idempotent
  total := (inferInstance : LinearDepths Float32).total
  trans := (inferInstance : LinearDepths Float32).trans
  antisymm := (inferInstance : LinearDepths Float32).antisymm
  lt_of_not_le := (inferInstance : LinearDepths Float32).lt_of_not_le

/-! ## The painting -/

variable {α : Type} [Scalar α]

theorem Lens.Shows.exists_depthOf {lens : Lens α} {placement : Mat4 α} {color : Color}
    {category : Category} {sight : Sight α} (shows : lens.Shows placement color category sight) :
    ∃ distance, sight.depth = depthOf distance := by
  cases shows <;> exact ⟨_, rfl⟩

namespace Viewer

/-- The farther of two sights comes first, at equal depth the earlier slot. -/
def PaintedBefore (first second : (Category × Nat) × Sight α) : Prop :=
  second.2.depth < first.2.depth ∨
    second.2.depth = first.2.depth ∧ SlotBefore first.1 second.1

/-- A list names every slot that is seen, once and in the order in which they are painted. -/
structure Arranged (viewer : Viewer α) (lens : Lens α)
    (drawn : List ((Category × Nat) × Sight α)) : Prop where
  mem_iff : ∀ key sight, (key, sight) ∈ drawn ↔ viewer.Depicts lens key sight
  nodup : (drawn.map (·.1)).Nodup
  ordered : drawn.Pairwise PaintedBefore

/-- Whether a sight is at least as far away as another. -/
def farther (first second : (Category × Nat) × Sight α) : Bool :=
  decide (depthOf second.2.depth ≤ depthOf first.2.depth)

/-- The list of the slots that are seen, as they are painted. -/
def arrangement (viewer : Viewer α) (lens : Lens α) : List ((Category × Nat) × Sight α) :=
  (viewer.pictures lens).mergeSort farther

section

variable {viewer : Viewer α} (sound : viewer.scene.Sound) (owned : viewer.scene.Owned)
  [LinearDepths α]

private theorem farther_trans (first second third : (Category × Nat) × Sight α)
    (before : farther first second) (after : farther second third) : farther first third :=
  decide_eq_true (LinearDepths.trans _ _ _ (of_decide_eq_true after) (of_decide_eq_true before))

private theorem farther_total (first second : (Category × Nat) × Sight α) :
    (farther first second || farther second first) = true := by
  simpa [farther] using LinearDepths.total second.2.depth first.2.depth

include sound owned

private theorem depthOf_of_mem {lens : Lens α} {entry : (Category × Nat) × Sight α}
    (member : entry ∈ viewer.pictures lens) : depthOf entry.2.depth = entry.2.depth := by
  obtain ⟨placement, content, tree, -, -, -, shows⟩ :=
    (picture?_eq_some_iff sound owned).mp (mem_pictures_iff.mp member)
  obtain ⟨distance, same⟩ := shows.exists_depthOf
  rw [same, LinearDepths.idempotent]

private theorem forestShapes_eq (drawn : viewer.scene.DrawnAlone)
    (orderly : viewer.population.registry.Orderly) (lens : Lens α) :
    viewer.forestShapes lens = (viewer.arrangement lens).map (·.2.shape) := by
  have compared : ∀ first ∈ viewer.pictures lens, ∀ second ∈ viewer.pictures lens,
      farther first second = decide (second.2.depth ≤ first.2.depth) := by
    intro first isFirst second isSecond
    rw [farther, depthOf_of_mem sound owned isFirst, depthOf_of_mem sound owned isSecond]
  rw [forestShapes, sights_eq drawn orderly, ← List.map_mergeSort compared, List.map_map]
  rfl

private theorem arranged_arrangement (lens : Lens α) :
    viewer.Arranged lens (viewer.arrangement lens) := by
  have perm : (viewer.arrangement lens).Perm (viewer.pictures lens) :=
    List.mergeSort_perm _ _
  refine ⟨?_, ?_, ?_⟩
  · intro key sight
    rw [perm.mem_iff, mem_pictures_iff, picture?_eq_some_iff sound owned]
  · refine (perm.map (·.1)).nodup_iff.mpr (List.pairwise_map.mpr ?_)
    exact (viewer.pairwise_pictures lens).imp SlotBefore.ne
  · have stable := pairwise_mergeSort_of_pairwise farther_trans farther_total
      (viewer.pairwise_pictures lens)
    refine stable.imp_of_mem ?_
    intro first second isFirst isSecond ordered
    have firstDepth := depthOf_of_mem sound owned (perm.mem_iff.mp isFirst)
    have secondDepth := depthOf_of_mem sound owned (perm.mem_iff.mp isSecond)
    have below := of_decide_eq_true ordered.1
    by_cases above : depthOf first.2.depth ≤ depthOf second.2.depth
    · refine .inr ⟨?_, ordered.2 (decide_eq_true above)⟩
      rw [← firstDepth, ← secondDepth]
      exact LinearDepths.antisymm _ _ below above
    · refine .inl ?_
      rw [← firstDepth, ← secondDepth]
      exact LinearDepths.lt_of_not_le _ _ above

end

/-- What is on a canvas: the grid, every uploaded instance that is seen, from the farthest to the
nearest, and the actor, if it is seen. -/
structure Painted (viewer : Viewer α) (canvas : Canvas α) : Prop where
  drawn : viewer.scene.DrawnAlone
  /-- What is uploaded of a slot is its present place, and a tree owns it. -/
  owned : ∀ category slot placement, viewer.scene.uploaded? category slot = some placement →
    ∃ content tree, viewer.scene.slot? category slot = some content ∧ content.live = placement ∧
      viewer.population.tree? content.owner = some tree ∧ tree.id = content.owner
  depicts_iff : ∀ category slot placement,
    viewer.scene.uploaded? category slot = some placement →
      ((∃ sight, viewer.Depicts (.ofCamera viewer.camera canvas) (category, slot) sight) ↔
        (Lens.ofCamera viewer.camera canvas).Sees category placement)
  painted : ∃ drawn, viewer.Arranged (.ofCamera viewer.camera canvas) drawn ∧
    viewer.paint canvas =
      viewer.gridShapes (.ofCamera viewer.camera canvas) ++ drawn.map (·.2.shape) ++
        (((viewer.camera.view canvas.size).project? viewer.actor).map fun center =>
          .disc (canvas.toWindow center) actorRadius .actor).toList

theorem Descended.owned {viewer : Viewer α} (descended : viewer.Descended) :
    viewer.scene.Owned := by
  obtain ⟨config, entropy, planted, steps, grown, same⟩ := descended.forest
  obtain ⟨stream, rest, grown⟩ := plant_eq_ok grown
  have kinds : planted.scene.Planted ChaCha config.felling := .grow rfl grown
  rw [same]
  exact kinds.upright.owned.run kinds.upright.sound steps

theorem Descended.painted [LinearDepths α] {viewer : Viewer α} (descended : viewer.Descended)
    (canvas : Canvas α) : viewer.Painted canvas := by
  obtain ⟨sound, reached, drawn⟩ := descended.reached
  have owned := descended.owned
  have orderly : viewer.population.registry.Orderly := by
    obtain ⟨renderer, shown, same⟩ := reached
    exact (congrArg (·.registry.Orderly) same).mpr (Display.orderly_run_empty renderer shown)
  have present : ∀ category slot placement,
      viewer.scene.uploaded? category slot = some placement →
        ∃ content tree, viewer.scene.slot? category slot = some content ∧
          content.live = placement ∧ viewer.population.tree? content.owner = some tree ∧
            tree.id = content.owner := by
    intro category slot placement uploaded
    rw [drawn.uploaded?_eq] at uploaded
    obtain ⟨content, known, live⟩ := Option.map_eq_some_iff.mp uploaded
    obtain ⟨tree, found⟩ := Option.isSome_iff_exists.mp (owned category slot content known)
    exact ⟨content, tree, known, live, found, sound.ids _ tree found⟩
  refine ⟨drawn, present, ?_, viewer.arrangement _, arranged_arrangement sound owned _, ?_⟩
  · intro category slot placement uploaded
    constructor
    · intro ⟨sight, other, _, tree, same, _, _, shows⟩
      cases uploaded.symm.trans same
      exact Lens.exists_shows_iff.mp ⟨sight, shows⟩
    · intro sees
      obtain ⟨content, tree, known, -, found, -⟩ := present category slot placement uploaded
      obtain ⟨sight, shows⟩ := Lens.exists_shows_iff.mpr sees
      exact ⟨sight, placement, content, tree, uploaded, known, found, shows⟩
  · have actor : viewer.actorShape? (.ofCamera viewer.camera canvas) =
        ((viewer.camera.view canvas.size).project? viewer.actor).map fun center =>
          .disc (canvas.toWindow center) actorRadius .actor := by
      rw [actorShape?, Lens.disc?, Lens.project?]
      change (((viewer.camera.view canvas.size).project? viewer.actor).map _).bind _ = _
      cases (viewer.camera.view canvas.size).project? viewer.actor <;> rfl
    rw [paint, forestShapes_eq sound owned drawn orderly, actor]

/-- Whatever happens to the viewer of a configuration, on every canvas it paints each uploaded
instance that is seen once, from the farthest to the nearest, in the colour of its tree, then the
actor, and nothing else but the grid. In single precision, depths are in a linear order. -/
theorem painted_of_respondAll [LinearDepths α] {config : Configuration α} {entropy : ChaCha}
    {viewer later : Viewer α} (opened : ofConfig config entropy = .ok viewer)
    {events : List (Event α)} (responded : viewer.respondAll events = .ok later)
    (canvas : Canvas α) : later.Painted canvas :=
  ((descended_of_ofConfig opened).respondAll responded).painted canvas

private theorem mem_colors_paint {viewer : Viewer α} {canvas : Canvas α} {color : Color}
    (seen : color ∈ (viewer.sights (.ofCamera viewer.camera canvas)).map (·.shape.color) ∨
      (viewer.actorShape? (.ofCamera viewer.camera canvas)).map (·.color) = some color) :
    color ∈ (viewer.paint canvas).map (·.color) := by
  unfold paint forestShapes
  obtain member | shown := seen
  · obtain ⟨sight, place, rfl⟩ := List.mem_map.mp member
    refine List.mem_map_of_mem (List.mem_append_left _ (List.mem_append_right _ ?_))
    exact List.mem_map_of_mem (List.mem_mergeSort.mpr place)
  · obtain ⟨shape, found, rfl⟩ := Option.map_eq_some_iff.mp shown
    exact List.mem_map_of_mem (List.mem_append_right _ (Option.mem_toList.mpr found))

open Charted in
/-- The branch that the menu is about, the leaf and the actor are all painted. -/
theorem painted_of_respondAll_selectTrunk :
    ∃ viewer selecting : Viewer Charted, ofConfig pole (.ofSeed 0) = .ok viewer ∧
      viewer.run selectTrunk = .ok selecting ∧ selecting.Painted canvas ∧
      ∀ color ∈ [Color.selection, .foliage, .actor],
        color ∈ (selecting.paint canvas).map (·.color) := by
  obtain ⟨viewer, selecting, opened, ran, -, forest, actor⟩ := exists_selectTrunk
  refine ⟨viewer, selecting, opened, ran,
    painted_of_respondAll opened (respondAll_of_run ran) canvas, fun color member => ?_⟩
  apply mem_colors_paint
  rw [forest, actor]
  revert color
  decide

end Viewer

end Grove
