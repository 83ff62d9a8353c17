import Grove.Proofs.Forest.Planting
import Grove.Proofs.Forest.Scene
import Grove.Proofs.Instance.Rows
import Grove.Proofs.Turtle.Counts

/-!
# The layout of planted forests

Trees are planted one after the other from one stream of random words. Their ids count them, and
their slots are in rows, whose lengths can be read off the words that the trees grow from. More
positions change nothing about the trees and slots before.
-/

set_option autoImplicit false

namespace Grove

variable {α σ : Type} [Scalar α] [Generator σ]

/-- A tree before it is planted: where it grows, its word, and the stream that its twists and leaf
sizes are drawn from. -/
structure Sprout (α σ : Type) where
  position : Vec3 α
  word : Word
  stream : σ

/-- The sprout of the next tree. -/
def Species.sprout (species : Species α) (position : Vec3 α) : Sampling σ (Sprout α σ) := do
  let word ← .lift (species.rules.expand species.startWord species.iterations)
  let stream ← get
  let _ ← Turtle.drawWord species.drawingParams position word
  return { position, word, stream }

/-- How many slots the tree of a sprout has. -/
def Sprout.slotCount (params : Turtle.Params α) (sprout : Sprout α σ) : Category → Nat
  | .branch => sprout.word.count 'F'
  | .leaf =>
      sprout.word.count 'L' + Turtle.countFar params sprout.position sprout.word sprout.stream

/-- How many slots the trees of sprouts have, one after the other. -/
def Species.slotCounts (species : Species α) (sprouts : List (Sprout α σ)) (category : Category) :
    List Nat :=
  sprouts.map (·.slotCount species.drawingParams category)

/-- The tree of a sprout. -/
def Species.treeOf (species : Species α) (sprout : Sprout α σ) (id : TreeId) : Tree α :=
  { id, position := sprout.position, trunkRadius := species.initialRadius }

namespace Stand

/-- Planting grows a sprout, and appends its tree and a row of slots in each category. -/
theorem exists_sprout_of_plant {stand planted : Stand α} {species : Species α}
    {position : Vec3 α} {stream rest : σ}
    (run : stand.plant species position stream = .ok (planted, rest)) :
    ∃ (sprout : Sprout α σ) (placements : Category → List (Mat4 α)),
      species.sprout position stream = .ok (sprout, rest) ∧ sprout.position = position ∧
      planted.trees = stand.trees.push (species.treeOf sprout stand.trees.size) ∧
      ∀ category,
        (placements category).length = sprout.slotCount species.drawingParams category ∧
        planted.registry.batch category =
          (stand.registry.batch category).addRow (placements category) stand.trees.size := by
  unfold plant at run
  obtain ⟨word, between, expanded, run⟩ := Sampling.bind_eq_ok_iff.mp run
  obtain ⟨drawing, last, drawn, run⟩ := Sampling.bind_eq_ok_iff.mp run
  cases Sampling.pure_eq_ok_iff.mp run
  obtain ⟨branches, leaves⟩ := Turtle.sizes_of_drawWord drawn
  refine ⟨⟨position, word, between⟩,
    fun
      | .branch => drawing.branches.toList
      | .leaf => drawing.leaves.toList, ?_, rfl, rfl, ?_⟩
  · refine Sampling.bind_eq_ok_iff.mpr ⟨word, between, expanded, ?_⟩
    refine Sampling.bind_eq_ok_iff.mpr ⟨between, between, rfl, ?_⟩
    exact Sampling.bind_eq_ok_iff.mpr ⟨drawing, rest, drawn, rfl⟩
  · intro category
    cases category with
    | branch => exact ⟨branches, by simp [Registry.batch_addAll]⟩
    | leaf => exact ⟨leaves, by simp [Registry.batch_addAll]⟩

/-- The trees of sprouts stand in order, and their slots in rows. -/
structure InRows (stand : Stand α) (species : Species α) (sprouts : List (Sprout α σ)) : Prop where
  size : stand.trees.size = sprouts.length
  tree?_eq : ∀ id, stand.tree? id = sprouts[id]?.map fun sprout => species.treeOf sprout id
  batches : ∀ category, (stand.registry.batch category).InRows (species.slotCounts sprouts category)

theorem InRows.empty (species : Species α) : ({} : Stand α).InRows species ([] : List (Sprout α σ))
    where
  size := rfl
  tree?_eq _ := rfl
  batches category := by cases category <;> exact .empty _

theorem InRows.plant {stand planted : Stand α} {species : Species α}
    {sprouts : List (Sprout α σ)} (rows : stand.InRows species sprouts) {position : Vec3 α}
    {stream rest : σ} (run : stand.plant species position stream = .ok (planted, rest)) :
    ∃ sprout, species.sprout position stream = .ok (sprout, rest) ∧ sprout.position = position ∧
      planted.InRows species (sprouts ++ [sprout]) := by
  obtain ⟨sprout, placements, sprouted, position, trees, batches⟩ := exists_sprout_of_plant run
  refine ⟨sprout, sprouted, position, ?_, ?_, ?_⟩
  · rw [trees, Array.size_push, rows.size, List.length_append, List.length_singleton]
  · intro id
    have old := rows.tree?_eq id
    unfold tree? at old ⊢
    rw [trees, Array.getElem?_push, rows.size]
    split
    · rename_i last
      rw [last, List.getElem?_concat_length, Option.map_some]
    · rename_i other
      rw [old]
      rcases Nat.lt_or_gt_of_ne other with inside | outside
      · rw [List.getElem?_append_left inside]
      · rw [List.getElem?_eq_none (Nat.le_of_lt outside), List.getElem?_eq_none (by simp; omega)]
  · intro category
    obtain ⟨length, row⟩ := batches category
    have extended := (rows.batches category).addRow (placements category)
    have owner : (species.slotCounts sprouts category).length = stand.trees.size :=
      (List.length_map _).trans rows.size.symm
    rw [owner, length] at extended
    rw [row, Species.slotCounts, List.map_append]
    exact extended

theorem InRows.foldlM {species : Species α} (positions : List (Vec3 α)) {stand final : Stand α}
    {sprouts : List (Sprout α σ)} (rows : stand.InRows species sprouts) {stream rest : σ}
    (run : positions.foldlM (Stand.plant species) stand stream = .ok (final, rest)) :
    ∃ more, positions.mapM species.sprout stream = .ok (more, rest) ∧
      more.map (·.position) = positions ∧ final.InRows species (sprouts ++ more) := by
  induction positions generalizing stand sprouts stream with
  | nil =>
      cases Sampling.pure_eq_ok_iff.mp run
      exact ⟨[], rfl, rfl, by rwa [List.append_nil]⟩
  | cons position positions induction =>
      rw [List.foldlM_cons] at run
      obtain ⟨next, between, planted, run⟩ := Sampling.bind_eq_ok_iff.mp run
      obtain ⟨sprout, sprouted, place, nextRows⟩ := rows.plant planted
      obtain ⟨more, others, places, finalRows⟩ := induction nextRows run
      refine ⟨sprout :: more, ?_, ?_, ?_⟩
      · rw [List.mapM_cons]
        refine Sampling.bind_eq_ok_iff.mpr ⟨sprout, between, sprouted, ?_⟩
        exact Sampling.bind_eq_ok_iff.mpr ⟨more, rest, others, rfl⟩
      · rw [List.map_cons, place, places]
      · rwa [List.append_cons]

/-- A stand begins with the trees and slots of another one. -/
structure Extends (stand later : Stand α) : Prop where
  trees : stand.trees.toList <+: later.trees.toList
  slots : ∀ category,
    (stand.registry.batch category).slots.toList <+: (later.registry.batch category).slots.toList

theorem Extends.plant {first stand planted : Stand α} (begun : first.Extends stand)
    {species : Species α} {position : Vec3 α} {stream rest : σ}
    (run : stand.plant species position stream = .ok (planted, rest)) : first.Extends planted := by
  obtain ⟨sprout, placements, -, -, trees, batches⟩ := exists_sprout_of_plant run
  refine ⟨begun.trees.trans ?_, fun category => (begun.slots category).trans ?_⟩
  · rw [trees, Array.toList_push]
    exact List.prefix_append _ _
  · rw [(batches category).2]
    exact Batch.slots_addRow _ _ _

theorem InRows.build {stand : Stand α} {species : Species α} {sprouts : List (Sprout α σ)}
    (rows : stand.InRows species sprouts) (renderer : Renderer α) :
    ({ stand with registry := (stand.registry.build renderer).1 } : Stand α).InRows species
      sprouts where
  size := rows.size
  tree?_eq := rows.tree?_eq
  batches category := by
    have batch := rows.batches category
    cases category <;> exact batch.build _

theorem Extends.build {stand later : Stand α} (begun : stand.Extends later)
    (renderer other : Renderer α) :
    ({ stand with registry := (stand.registry.build renderer).1 } : Stand α).Extends
      { later with registry := (later.registry.build other).1 } where
  trees := begun.trees
  slots category := by
    have slots := (begun.slots category).map Batch.settled
    rw [← Array.toList_map, ← Array.toList_map] at slots
    cases category <;> exact slots

end Stand

/-- A forest planted from sprouts: the trees stand in the order of their positions, their slots are
in rows, and no slot has been moved. -/
structure Scene.LaidOut (scene : Scene α) (species : Species α) (positions : List (Vec3 α))
    (sprouts : List (Sprout α σ)) : Prop where
  size : scene.population.trees.size = positions.length
  positions : sprouts.map (·.position) = positions
  tree?_eq : ∀ id, scene.tree? id = sprouts[id]?.map fun sprout => species.treeOf sprout id
  contiguous : ∀ category, (scene.population.registry.batch category).contiguous = true
  ascending : ∀ category first second owner other, first ≤ second →
    (scene.population.registry.batch category).owner? first = some owner →
    (scene.population.registry.batch category).owner? second = some other → owner ≤ other
  slotCount : ∀ category, (scene.population.registry.batch category).size =
    (species.slotCounts sprouts category).sum
  slotsOf_eq : ∀ category id, (scene.population.registry.batch category).slotsOf id =
    List.range' (firstSlot (species.slotCounts sprouts category) id)
      ((species.slotCounts sprouts category).getD id 0)
  owner?_iff : ∀ category slot id,
    (scene.population.registry.batch category).owner? slot = some id ↔
      slot ∈ (scene.population.registry.batch category).slotsOf id
  agree : ∀ category slot content, scene.slot? category slot = some content →
    content.live = content.base ∧ scene.uploaded? category slot = some content.base

namespace Population

private theorem laidOut_of_plantAt {positions : List (Vec3 α)} {species : Species α}
    {felling : Felling α} {renderer : Renderer α} {stream rest : σ} {scene : Scene α}
    (planted : plantAt positions species felling renderer stream =
      .ok ((scene.population, scene.renderer), rest)) :
    ∃ sprouts, positions.mapM species.sprout stream = .ok (sprouts, rest) ∧
      scene.LaidOut species positions sprouts := by
  have upright := plantAt_upright planted
  obtain ⟨stand, grown, population, -⟩ := plantAt_eq_ok planted
  obtain ⟨sprouts, sprouted, places, rows⟩ := (Stand.InRows.empty species).foldlM positions grown
  rw [List.nil_append] at rows
  have built := rows.build renderer
  have same : scene.population.stand = { stand with registry := (stand.registry.build renderer).1 } :=
    congrArg Population.stand population
  rw [← same] at built
  refine ⟨sprouts, sprouted, ?_, places, built.tree?_eq, ?_, ?_, ?_, ?_, ?_, ?_⟩
  · rw [← places, List.length_map]
    exact built.size
  · exact fun category => (built.batches category).contiguous
  · exact fun category first second owner other ordered =>
      (built.batches category).ascending ordered
  · exact fun category => (built.batches category).size
  · exact fun category => (built.batches category).slotsOf
  · exact fun category slot id =>
      (Batch.mem_slotsOf_iff (upright.stand.consistent category)).symm
  · intro category slot content found
    have live := (upright.stand.slots category slot content found).1
    exact ⟨live, live ▸ upright.shown category slot content found⟩

private theorem exists_plantAt_eq_ok {species : Species α} (drawable : species.Drawable σ)
    (positions : List (Vec3 α)) (felling : Felling α) (renderer : Renderer α) (stream : σ) :
    ∃ (scene : Scene α) (rest : σ), plantAt positions species felling renderer stream =
      .ok ((scene.population, scene.renderer), rest) := by
  obtain ⟨⟨population, drawn⟩, rest, planted⟩ :=
    drawable.succeeds_plantAt positions felling renderer stream
  exact ⟨⟨population, drawn⟩, rest, planted⟩

/-- A forest of a species that can be drawn has a tree at each of its positions. -/
theorem exists_planted {species : Species α} (drawable : species.Drawable σ)
    (positions : List (Vec3 α)) (felling : Felling α) (stream : σ) :
    ∃ scene : Scene α, scene.Planted σ felling ∧
      ∀ id < positions.length, ∃ tree, scene.tree? id = some tree ∧ tree.phase = .standing := by
  obtain ⟨scene, rest, planted⟩ :=
    exists_plantAt_eq_ok drawable positions felling .empty stream
  refine ⟨scene, .plantAt planted, fun id inside => ?_⟩
  obtain ⟨sprouts, -, laidOut⟩ := laidOut_of_plantAt planted
  rw [← laidOut.positions, List.length_map] at inside
  refine ⟨species.treeOf sprouts[id] id, ?_, rfl⟩
  simp [laidOut.tree?_eq, inside]

private theorem extends_of_plantAt {positions more : List (Vec3 α)} {species : Species α}
    {felling : Felling α} {renderer other : Renderer α} {stream rest remaining : σ}
    {population extended : Population α} {drawn shown : Renderer α}
    (planted : plantAt positions species felling renderer stream =
      .ok ((population, drawn), rest))
    (longer : plantAt (positions ++ more) species felling other stream =
      .ok ((extended, shown), remaining)) : population.stand.Extends extended.stand := by
  obtain ⟨stand, grown, rfl, -⟩ := plantAt_eq_ok planted
  obtain ⟨later, grownLater, rfl, -⟩ := plantAt_eq_ok longer
  rw [List.foldlM_append] at grownLater
  obtain ⟨middle, between, began, ended⟩ := Sampling.bind_eq_ok_iff.mp grownLater
  cases grown.symm.trans began
  have begun : stand.Extends later :=
    Sampling.foldlM_invariant stand.Extends (fun _ _ _ _ _ begun run => begun.plant run)
      ⟨List.prefix_refl _, fun _ => List.prefix_refl _⟩ ended
  exact begun.build renderer other

/-- The rows of a forest planted at some positions, and what becomes of them if there are more. -/
structure PlantedInRows (scene : Scene Float32) (positions : List (Vec3 Float32))
    (species : Species Float32) (felling : Felling Float32) (stream rest : σ) : Prop where
  rows : ∃ sprouts, positions.mapM species.sprout stream = .ok (sprouts, rest) ∧
    scene.LaidOut species positions sprouts
  continued : ∀ more renderer population drawn remaining,
    plantAt (positions ++ more) species felling renderer stream =
      .ok ((population, drawn), remaining) → scene.population.stand.Extends population.stand
  succeeds : species.Valid → ∀ more renderer, ∃ forest remaining,
    plantAt (positions ++ more) species felling renderer stream = .ok (forest, remaining)

/-- Wherever, of whatever species and from whatever stream a forest is planted, its trees and slots
are in rows, and more positions only add to them. -/
theorem inRows_of_plantAt {positions : List (Vec3 Float32)} {species : Species Float32}
    {felling : Felling Float32} {renderer : Renderer Float32} {stream rest : σ}
    {scene : Scene Float32}
    (planted : plantAt positions species felling renderer stream =
      .ok ((scene.population, scene.renderer), rest)) :
    PlantedInRows scene positions species felling stream rest where
  rows := laidOut_of_plantAt planted
  continued _ _ _ _ _ longer := extends_of_plantAt planted longer
  succeeds valid more renderer :=
    valid.drawable.succeeds_plantAt (positions ++ more) felling renderer stream

theorem inRows_of_plantAt_pair : ∃ (scene : Scene Float32) (rest : Cycle),
    plantAt [⟨0, 0, 0⟩, ⟨5, 0, 0⟩] .broadleaf .standard .empty (⟨#[0], 0⟩ : Cycle) =
      .ok ((scene.population, scene.renderer), rest) ∧
    PlantedInRows scene [⟨0, 0, 0⟩, ⟨5, 0, 0⟩] .broadleaf .standard (⟨#[0], 0⟩ : Cycle) rest := by
  obtain ⟨scene, rest, planted⟩ := exists_plantAt_eq_ok Species.drawable_broadleaf
    [⟨0, 0, 0⟩, ⟨5, 0, 0⟩] .standard .empty (⟨#[0], 0⟩ : Cycle)
  exact ⟨scene, rest, planted, inRows_of_plantAt planted⟩

end Population

end Grove
