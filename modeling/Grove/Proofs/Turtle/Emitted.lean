import Grove.Proofs.Forest.Planting
import Grove.Proofs.Geometry.Thin
import Grove.Proofs.Random.Fraction
import Grove.Proofs.Turtle.Counts

/-!
# What a turtle draws can be hit

Every branch of a drawing is drawn from where the turtle stands at an `F` to where that takes it, and
every leaf stands where the turtle is. Whether rays can be taken into their coordinates is a matter
of their sizes, and these come from the settings: no branch is thinner than the least radius, and no
leaf smaller than the least size. But a valid least radius or size may be so small that in single
precision nothing is left of its product with the others.
-/

set_option autoImplicit false

namespace Grove

open Single Placement

/-! ## Steps -/

namespace Turtle

section Steps

variable {α σ : Type} [Scalar α] [Generator σ]

/-- The branch from a cursor to where it takes a segment. -/
def Params.segment (params : Params α) (cursor : Cursor α) : Mat4 α :=
  branch cursor.position (cursor.advance params.segmentLength).position cursor.radius

/-- How a drawing goes on with one symbol. -/
structure GoesOn (params : Params α) (σ : Type) [Generator σ] (symbol : Symbol)
    (drawing next : Drawing α) : Prop where
  branches : next.branches =
    if symbol = 'F' then drawing.branches.push (params.segment drawing.cursor) else drawing.branches
  leaves : next.leaves = drawing.leaves ∨ ∃ (size : α) (stream rest : σ),
    params.drawLeafSize stream = .ok (size, rest) ∧
      next.leaves = drawing.leaves.push (leaf next.cursor.position size)
  radii : ∀ cursor ∈ next.cursor :: next.saved, ∃ earlier ∈ drawing.cursor :: drawing.saved,
    cursor.radius = earlier.radius ∨ cursor.radius = (earlier.thin params).radius

section

variable {params : Params α} {base : Vec3 α} {drawing next : Drawing α} {symbol : Symbol}
  {stream rest : σ}

private theorem exists_size_of_growLeaf (run : drawing.growLeaf params stream = .ok (next, rest)) :
    ∃ size, params.drawLeafSize stream = .ok (size, rest) ∧
      next = drawing.addLeaf (leaf drawing.cursor.position size) := by
  obtain ⟨size, between, drawn, run⟩ := Sampling.bind_eq_ok_iff.mp run
  cases Sampling.pure_eq_ok_iff.mp run
  exact ⟨size, drawn, rfl⟩

/-- A symbol that moves the turtle or does nothing. -/
theorem GoesOn.moved (noSegment : symbol ≠ 'F') (branches : next.branches = drawing.branches)
    (leaves : next.leaves = drawing.leaves)
    (radius : next.cursor.radius = drawing.cursor.radius) (saved : next.saved = drawing.saved) :
    GoesOn params σ symbol drawing next := by
  refine ⟨by rw [branches, if_neg noSegment], .inl leaves, fun cursor member => ?_⟩
  rw [saved] at member
  rcases List.mem_cons.mp member with rfl | kept
  · exact ⟨_, .head _, .inl radius⟩
  · exact ⟨cursor, .tail _ kept, .inl rfl⟩

private theorem goesOn_segment (run : step params base drawing 'F' stream = .ok (next, rest)) :
    GoesOn params σ 'F' drawing next := by
  have radii : ∀ cursor ∈ drawing.cursor.advance params.segmentLength :: drawing.saved,
      ∃ earlier ∈ drawing.cursor :: drawing.saved,
        cursor.radius = earlier.radius ∨ cursor.radius = (earlier.thin params).radius := by
    intro cursor member
    rcases List.mem_cons.mp member with rfl | kept
    · exact ⟨_, .head _, .inl rfl⟩
    · exact ⟨cursor, .tail _ kept, .inl rfl⟩
  change (if _ then _ else _ : Sampling σ (Drawing α)) stream = _ at run
  split at run
  · obtain ⟨size, drawn, rfl⟩ := exists_size_of_growLeaf run
    exact ⟨rfl, .inr ⟨size, stream, rest, drawn, rfl⟩, radii⟩
  · cases Sampling.pure_eq_ok_iff.mp run
    exact ⟨rfl, .inl rfl, radii⟩

private theorem goesOn_step (run : step params base drawing symbol stream = .ok (next, rest)) :
    GoesOn params σ symbol drawing next := by
  by_cases isSegment : symbol = 'F'
  · subst isSegment
    exact goesOn_segment run
  have same : ∀ cursor ∈ drawing.cursor :: drawing.saved,
      ∃ earlier ∈ drawing.cursor :: drawing.saved,
        cursor.radius = earlier.radius ∨ cursor.radius = (earlier.thin params).radius :=
    fun cursor member => ⟨cursor, member, .inl rfl⟩
  unfold step at run
  split at run
  · exact absurd rfl isSegment
  · cases Sampling.pure_eq_ok_iff.mp run
    exact .moved isSegment rfl rfl rfl rfl
  · obtain ⟨twist, rfl⟩ := turn_eq_ok run
    exact .moved isSegment rfl rfl rfl rfl
  · obtain ⟨twist, rfl⟩ := turn_eq_ok run
    exact .moved isSegment rfl rfl rfl rfl
  · cases Sampling.pure_eq_ok_iff.mp run
    refine ⟨rfl, .inl rfl, fun cursor member => same cursor ?_⟩
    rcases List.mem_cons.mp member with rfl | kept
    · exact .head _
    · exact kept
  · cases Sampling.pure_eq_ok_iff.mp run
    unfold Drawing.restore
    split
    · exact .moved isSegment rfl rfl rfl rfl
    · rename_i found
      refine ⟨rfl, .inl rfl, fun cursor member => same cursor ?_⟩
      rw [found]
      exact .tail _ member
  · cases Sampling.pure_eq_ok_iff.mp run
    refine ⟨rfl, .inl rfl, fun cursor member => ?_⟩
    rcases List.mem_cons.mp member with rfl | kept
    · exact ⟨_, .head _, .inr rfl⟩
    · exact same cursor (.tail _ kept)
  · obtain ⟨size, drawn, rfl⟩ := exists_size_of_growLeaf run
    exact ⟨rfl, .inr ⟨size, stream, rest, drawn, rfl⟩, same⟩
  · cases Sampling.pure_eq_ok_iff.mp run
    exact .moved isSegment rfl rfl rfl rfl

end

/-! ## Runs -/

variable {params : Params α} {base : Vec3 α} {drawing : Drawing α} {stream rest : σ}

/-- The branch of a drawing with a number of branches before it belongs to the `F` with as many
before it in the word. -/
theorem branch_of_drawWord {word : Word}
    (run : drawWord params base word stream = .ok (drawing, rest)) {index : Nat}
    {placement : Mat4 α} (drawn : drawing.branches[index]? = some placement) :
    ∃ before after earlier between, word = before ++ 'F' :: after ∧ before.count 'F' = index ∧
      drawWord params base before stream = .ok (earlier, between) ∧
        placement = params.segment earlier.cursor := by
  induction word using List.reverseRecOn generalizing drawing rest with
  | nil =>
      cases Sampling.pure_eq_ok_iff.mp run
      cases drawn
  | append_singleton word symbol induction =>
      obtain ⟨earlier, between, began, stepped⟩ := drawWord_concat_eq_ok run
      have added : earlier.branches[index]? = some placement ∨
          symbol = 'F' ∧ earlier.branches.size = index ∧
            placement = params.segment earlier.cursor := by
        rw [(goesOn_step stepped).branches] at drawn
        split at drawn
        · rename_i isSegment
          rw [Array.getElem?_push] at drawn
          split at drawn
          · rename_i last
            cases drawn
            exact .inr ⟨isSegment, last.symm, rfl⟩
          · exact .inl drawn
        · exact .inl drawn
      rcases added with before | ⟨rfl, last, rfl⟩
      · obtain ⟨first, after, found, reached, split, others⟩ := induction began before
        exact ⟨first, after ++ [symbol], found, reached, by simp [split], others⟩
      · exact ⟨word, [], earlier, between, rfl, (sizes_of_drawWord began).1.symm.trans last, began,
          rfl⟩

/-- Every leaf of a drawing has a size that was drawn for it. -/
theorem leaf_of_drawWord {word : Word}
    (run : drawWord params base word stream = .ok (drawing, rest)) {placement : Mat4 α}
    (member : placement ∈ drawing.leaves) :
    ∃ (center : Vec3 α) (size : α) (before after : σ),
      params.drawLeafSize before = .ok (size, after) ∧ placement = leaf center size := by
  induction word using List.reverseRecOn generalizing drawing rest with
  | nil =>
      cases Sampling.pure_eq_ok_iff.mp run
      simp [Params.begin] at member
  | append_singleton word symbol induction =>
      obtain ⟨earlier, between, began, stepped⟩ := drawWord_concat_eq_ok run
      rcases (goesOn_step stepped).leaves with same | ⟨size, before, after, drawn, pushed⟩
      · rw [same] at member
        exact induction began member
      · rw [pushed, Array.mem_push] at member
        rcases member with kept | rfl
        · exact induction began kept
        · exact ⟨_, size, before, after, drawn, rfl⟩

/-- Thinning does not go below the least radius, and the turtle does not begin below it. -/
theorem radius_of_drawWord {word : Word}
    (run : drawWord params base word stream = .ok (drawing, rest)) :
    ∀ cursor ∈ drawing.cursor :: drawing.saved,
      ∃ radius, cursor.radius = Scalar.max radius params.minRadius := by
  induction word using List.reverseRecOn generalizing drawing rest with
  | nil =>
      cases Sampling.pure_eq_ok_iff.mp run
      intro cursor member
      obtain rfl := List.mem_singleton.mp member
      exact ⟨params.initialRadius, rfl⟩
  | append_singleton word symbol induction =>
      obtain ⟨earlier, between, began, stepped⟩ := drawWord_concat_eq_ok run
      intro cursor member
      obtain ⟨other, found, same | thinned⟩ := (goesOn_step stepped).radii cursor member
      · rw [same]
        exact induction began other found
      · exact ⟨_, thinned⟩

end Steps

/-! ## Sizes -/

theorem right_le_max {left right : Float32} (number : right.isNaN = false) :
    right ≤ Scalar.max left right := by
  unfold Scalar.max
  rw [scalar_isNaN]
  cases leftNumber : left.isNaN with
  | true => exact le_iff.mpr ⟨number, number, le_rfl⟩
  | false =>
      rw [if_neg Bool.false_ne_true]
      split
      · exact le_iff.mpr ⟨number, number, le_rfl⟩
      · rename_i notBelow
        exact le_of_numbers number leftNumber notBelow

variable {σ : Type} [Generator σ]

private theorem le_of_drawLeafSize {species : Species Float32} (valid : species.Valid)
    {size : Float32} {stream rest : σ}
    (run : species.drawingParams.drawLeafSize stream = .ok (size, rest)) :
    species.leafSizeMin ≤ size := by
  have finite : species.leafSizeMin.isFinite = true := valid.leafSizeMin.1
  have number := (isFinite_iff_place.mp finite).1
  have most := (isFinite_iff_place.mp (valid.leafSizeMax.1 : species.leafSizeMax.isFinite = true)).1
  have ordered : species.drawingParams.leafSizeMin ≤ species.drawingParams.leafSizeMax :=
    le_of_numbers number most valid.leafSizes
  unfold Params.drawLeafSize at run
  rw [if_pos ordered] at run
  dsimp only at run
  split at run
  · exact Sampling.le_of_drawRange finite
      ((not_le_zero_iff number).mp valid.leafSizeMin.2).le run
  · cases Sampling.pure_eq_ok_iff.mp run
    exact le_iff.mpr ⟨number, number, le_rfl⟩

/-! ## What can be hit -/

/-- A branch that is drawn no thinner than a least radius. In the box its volume decides whether it
can be hit, and it can if the least radius is at least `2 ^ -56`. -/
structure BranchHits (minRadius : Float32) (bottom top : Vec3 Float32) (radius : Float32)
    (placement : Mat4 Float32) : Prop where
  drawn : placement = branch bottom top radius
  least : minRadius ≤ radius
  decided : Placeable bottom top radius →
    DecidedBy (reading radius ^ 2 * reading (drawnLength bottom top)) placement
  stout : Placeable bottom top radius → 2 ^ (-56 : ℤ) ≤ reading minRadius →
    ∀ ray : Ray Float32, (ray.toLocal? placement).isSome = true

/-- A leaf that is no smaller than a least size. In the box its volume decides whether it can be hit,
and it can if the least size is at least `2 ^ -42`. -/
structure LeafHits (minSize : Float32) (center : Vec3 Float32) (size : Float32)
    (placement : Mat4 Float32) : Prop where
  drawn : placement = leaf center size
  least : minSize ≤ size
  decided : InBox center → Within 30 size → DecidedBy (reading size ^ 3) placement
  stout : InBox center → Within 30 size → 2 ^ (-42 : ℤ) ≤ reading minSize →
    ∀ ray : Ray Float32, (ray.toLocal? placement).isSome = true

private theorem branchHits_of_le {minRadius radius : Float32}
    (valid : Scalar.isFinite minRadius = true ∧ ¬minRadius ≤ 0) (least : minRadius ≤ radius)
    (bottom top : Vec3 Float32) :
    BranchHits minRadius bottom top radius (branch bottom top radius) := by
  have positive := reading_pos valid
  have decided : Placeable bottom top radius → reading minRadius ≤ reading radius ∧
      DecidedBy (reading radius ^ 2 * reading (drawnLength bottom top))
        (branch bottom top radius) := by
    intro placeable
    have above := reading_le valid.1 placeable.thickness.finite (le_iff.mp least).2.2
    exact ⟨above, decidedBy_branch placeable (positive.trans_le above)⟩
  refine ⟨rfl, least, fun placeable => (decided placeable).2, fun placeable stout => ?_⟩
  obtain ⟨above, decides⟩ := decided placeable
  refine decides.hit ?_
  have long := (drawn_within placeable.begins placeable.ends).2.2
  calc (2 : ℝ) ^ (-127 : ℤ) ≤ (2 ^ (-56 : ℤ)) ^ 2 * 2 ^ (-14 : ℤ) := by norm_num
    _ ≤ reading radius ^ 2 * reading (drawnLength bottom top) :=
        mul_le_mul (pow_le_pow_left₀ (by positivity) (stout.trans above) 2) long (by positivity)
          (by positivity)

private theorem leafHits_of_le {minSize size : Float32}
    (valid : Scalar.isFinite minSize = true ∧ ¬minSize ≤ 0) (least : minSize ≤ size)
    (center : Vec3 Float32) : LeafHits minSize center size (leaf center size) := by
  have positive := reading_pos valid
  have decided : InBox center → Within 30 size → reading minSize ≤ reading size ∧
      DecidedBy (reading size ^ 3) (leaf center size) := by
    intro box within
    have above := reading_le valid.1 within.finite (le_iff.mp least).2.2
    exact ⟨above, decidedBy_leaf box within (positive.trans_le above)⟩
  refine ⟨rfl, least, fun box within => (decided box within).2, fun box within stout => ?_⟩
  obtain ⟨above, decides⟩ := decided box within
  refine decides.hit ?_
  calc (2 : ℝ) ^ (-127 : ℤ) ≤ (2 ^ (-42 : ℤ)) ^ 3 := by norm_num
    _ ≤ reading size ^ 3 := pow_le_pow_left₀ (by positivity) (stout.trans above) 3

/-- A valid species draws every word. Of every branch and of every leaf in the box, its volume decides
whether it can be hit, and all can be hit as long as the least radius and the least size are not
tiny. -/
theorem hittable_of_drawWord {species : Species Float32} (valid : species.validate = .ok ())
    (base : Vec3 Float32) (word : Word) (stream : σ) :
    ∃ drawing rest, drawWord species.drawingParams base word stream = .ok (drawing, rest) ∧
      (∀ (index : Nat) (placement : Mat4 Float32), drawing.branches[index]? = some placement →
        ∃ before after earlier between, word = before ++ 'F' :: after ∧
          before.count 'F' = index ∧
          drawWord species.drawingParams base before stream = .ok (earlier, between) ∧
          BranchHits species.minRadius earlier.cursor.position
            (earlier.cursor.advance species.segmentLength).position earlier.cursor.radius
            placement) ∧
      ∀ placement ∈ drawing.leaves, ∃ center size,
        LeafHits species.leafSizeMin center size placement := by
  have checked := (Species.validate_eq_ok_iff species).mp valid
  obtain ⟨drawing, rest, run⟩ := Sampling.Succeeds.foldlM
    (checked.drawable.succeeds_step base) word (species.drawingParams.begin base) stream
  refine ⟨drawing, rest, run, fun index placement drawn => ?_, fun placement member => ?_⟩
  · obtain ⟨before, after, earlier, between, split, count, reached, rfl⟩ :=
      branch_of_drawWord run drawn
    obtain ⟨radius, same⟩ := radius_of_drawWord reached earlier.cursor (.head _)
    have least : species.minRadius ≤ earlier.cursor.radius :=
      same ▸ right_le_max (isFinite_iff_place.mp checked.minRadius.1).1
    exact ⟨before, after, earlier, between, split, count, reached,
      branchHits_of_le checked.minRadius least _ _⟩
  · obtain ⟨center, size, before, after, drawn, rfl⟩ := leaf_of_drawWord run member
    exact ⟨center, size, leafHits_of_le checked.leafSizeMin
      (le_of_drawLeafSize checked drawn) center⟩

/-- A tree of one segment that stands at the origin can be hit. -/
theorem hittable_of_drawWord_broadleaf :
    (Species.broadleaf : Species Float32).validate = .ok () ∧
      ∃ drawing rest, drawWord Species.broadleaf.drawingParams .zero ['F'] (⟨#[0], 0⟩ : Cycle) =
          .ok (drawing, rest) ∧
        ∃ placement : Mat4 Float32, drawing.branches[0]? = some placement ∧
          ∀ ray : Ray Float32, (ray.toLocal? placement).isSome = true := by
  have valid : (Species.broadleaf : Species Float32).validate = .ok () :=
    Except.eq_ok_of_isOk (by decide +kernel)
  obtain ⟨drawing, rest, run, branches, -⟩ :=
    hittable_of_drawWord valid .zero ['F'] (⟨#[0], 0⟩ : Cycle)
  have inside : 0 < drawing.branches.size := by
    rw [(sizes_of_drawWord run).1]
    decide
  have drawn := Array.getElem?_eq_getElem inside
  refine ⟨valid, drawing, rest, run, _, drawn, ?_⟩
  obtain ⟨before, after, earlier, between, split, count, reached, hits⟩ := branches 0 _ drawn
  obtain rfl : before = [] := by
    cases before with
    | nil => rfl
    | cons symbol before => simp at split
  cases Sampling.pure_eq_ok_iff.mp reached
  have box : ∀ {point : Vec3 Float32}, (∀ part ∈ parts point,
      -1073741824 ≤ part ∧ part ≤ 1073741824) → InBox point := by
    intro point bounds
    simp only [parts, List.forall_mem_cons] at bounds
    exact ⟨within_of_le bounds.1.1 bounds.1.2, within_of_le bounds.2.1.1 bounds.2.1.2,
      within_of_le bounds.2.2.1.1 bounds.2.2.1.2⟩
  refine hits.stout ⟨box (by decide +kernel), box (by decide +kernel), ?_, fun downward => ?_⟩ ?_
  · exact within_of_le (by decide +kernel) (by decide +kernel)
  · exact absurd downward (by decide +kernel)
  · have said : meaning (Species.broadleaf : Species Float32).minRadius =
        .finite .positive 16106127 (-29) (by decide) := rfl
    rw [reading_of_finite said]
    norm_num [factor]

/-- A valid species of very thin branches and very small leaves. -/
def needle : Species Float32 :=
  { Species.broadleaf with
    initialRadius := 1e-30, minRadius := 1e-30, leafSizeMin := 1e-16, leafSizeMax := 1e-16 }

/-- A ray towards the vertical axis, at a height. -/
def towardsAxis (height : Float32) : Ray Float32 :=
  ⟨⟨5, height, 0⟩, ⟨-1, 0, 0⟩⟩

/-- Not all placements that a valid species draws can be hit. The branch of a needle is not by a ray
through its middle, and its leaf not by one through the centre, though both placements are finite. -/
theorem needle_missed :
    needle.validate = .ok () ∧
      ∃ drawing rest, drawWord needle.drawingParams .zero ['F', 'L'] (⟨#[0], 0⟩ : Cycle) =
          .ok (drawing, rest) ∧
        (∃ placement, drawing.branches[0]? = some placement ∧ placement.isFinite = true ∧
          (towardsAxis 0.6).toLocal? placement = none) ∧
        ∃ placement, drawing.leaves[0]? = some placement ∧ placement.isFinite = true ∧
          (towardsAxis 1.2).toLocal? placement = none := by
  have missed : ((drawWord needle.drawingParams .zero ['F', 'L']
      (⟨#[0], 0⟩ : Cycle)).toOption.any fun result =>
        (result.1.branches[0]?.any fun placement =>
          placement.isFinite && ((towardsAxis 0.6).toLocal? placement).isNone) &&
        result.1.leaves[0]?.any fun placement =>
          placement.isFinite && ((towardsAxis 1.2).toLocal? placement).isNone) = true := by
    decide +kernel
  obtain ⟨⟨drawing, rest⟩, run, missed⟩ := Except.exists_of_any missed
  simp only [Bool.and_eq_true, Option.any_eq_true, Option.isNone_iff_eq_none] at missed
  exact ⟨Except.eq_ok_of_isOk (by decide +kernel), drawing, rest, run, missed⟩

end Turtle

end Grove
