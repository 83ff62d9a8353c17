import Grove.Forest.Population
import Grove.Proofs.Config.Validity
import Grove.Proofs.Random.Sampling
import Grove.Proofs.Single.Difference

/-!
# Planting valid configurations

A forest is planted from random numbers out of three kinds of ranges: places along an axis, twists
and leaf sizes. Trees are planted whenever twists and leaf sizes can be drawn, as they can for a
valid species. The places of a valid configuration can be drawn as long as the square they lie in is
of finite width; the checks do not see to that, since they look at half of it.
-/

set_option autoImplicit false

namespace Grove

variable {σ : Type} [Generator σ]

/-! ## Trees -/

variable (σ) in
/-- In whatever order the two sizes are given, the range of leaf sizes goes up. -/
theorem Turtle.Params.drawLeafSize_cases {α : Type} [Scalar α] (params : Turtle.Params α) :
    ∃ low high,
      (low = params.leafSizeMin ∧ high = params.leafSizeMax ∨
        low = params.leafSizeMax ∧ high = params.leafSizeMin) ∧
      (params.drawLeafSize : Sampling σ α) =
        if low < high then drawRange low high else pure low := by
  unfold drawLeafSize
  by_cases ordered : params.leafSizeMin ≤ params.leafSizeMax
  · rw [if_pos ordered]
    exact ⟨_, _, .inl ⟨rfl, rfl⟩, rfl⟩
  · rw [if_neg ordered]
    exact ⟨_, _, .inr ⟨rfl, rfl⟩, rfl⟩

section Walks

variable {α : Type} [Scalar α] {params : Turtle.Params α}

theorem Turtle.succeeds_growLeaf (leafSize : (params.drawLeafSize : Sampling σ α).Succeeds)
    (drawing : Turtle.Drawing α) : (drawing.growLeaf params : Sampling σ _).Succeeds :=
  leafSize.bind fun _ => .pure _

/-- No symbol of a word makes a turtle fail. -/
theorem Turtle.succeeds_step (twist : (drawRange 0 Scalar.tau : Sampling σ α).Succeeds)
    (leafSize : (params.drawLeafSize : Sampling σ α).Succeeds) (base : Vec3 α)
    (drawing : Turtle.Drawing α) (symbol : Symbol) :
    (Turtle.step params base drawing symbol : Sampling σ _).Succeeds := by
  unfold Turtle.step
  split
  · dsimp only
    split
    · exact succeeds_growLeaf leafSize _
    · exact .pure _
  · exact .pure _
  · exact twist.bind fun _ => .pure _
  · exact twist.bind fun _ => .pure _
  · exact .pure _
  · exact .pure _
  · exact .pure _
  · exact succeeds_growLeaf leafSize drawing
  · exact .pure _

end Walks

variable (σ) in
/-- Twists and leaf sizes can be drawn, whatever the stream. -/
structure Species.Drawable {α : Type} [Scalar α] (species : Species α) : Prop where
  twist : (drawRange 0 Scalar.tau : Sampling σ α).Succeeds
  leafSize : (species.drawingParams.drawLeafSize : Sampling σ α).Succeeds

namespace Species.Drawable

variable {α : Type} [Scalar α] {species : Species α} (drawable : species.Drawable σ)

include drawable

theorem succeeds_step (base : Vec3 α) (drawing : Turtle.Drawing α) (symbol : Symbol) :
    (Turtle.step species.drawingParams base drawing symbol : Sampling σ _).Succeeds :=
  Turtle.succeeds_step drawable.twist drawable.leafSize base drawing symbol

private theorem succeeds_plant (stand : Stand α) (position : Vec3 α) :
    (stand.plant species position : Sampling σ _).Succeeds := by
  unfold Stand.plant
  refine (Sampling.Succeeds.lift _).bind fun word => ?_
  exact (Sampling.Succeeds.foldlM (drawable.succeeds_step position) word _).bind fun _ => .pure _

theorem succeeds_plantAt (positions : List (Vec3 α)) (felling : Felling α)
    (renderer : Renderer α) :
    (Population.plantAt positions species felling renderer : Sampling σ _).Succeeds :=
  (Sampling.Succeeds.foldlM drawable.succeeds_plant positions {}).bind fun _ => .pure _

end Species.Drawable

private theorem succeeds_drawSize {low high : Float32}
    (small : Scalar.isFinite low = true ∧ ¬low ≤ 0)
    (large : Scalar.isFinite high = true ∧ ¬high ≤ 0) :
    (if low < high then drawRange low high else pure low : Sampling σ Float32).Succeeds := by
  have nonneg : ∀ {size : Float32}, Scalar.isFinite size = true ∧ ¬size ≤ 0 →
      0 ≤ Single.place size := by
    intro size ⟨finite, positive⟩
    have number := (Single.isFinite_iff_place.mp finite).1
    exact Int.le_of_lt ((Single.not_le_zero_iff number).mp positive)
  split
  · rename_i ordered
    rw [Single.lt_iff] at ordered
    have ordered := Single.le_iff.mpr ⟨ordered.1, ordered.2.1, Int.le_of_lt ordered.2.2⟩
    have finite := Single.sub_isFinite small.1 large.1 (nonneg small) (nonneg large)
    exact Sampling.succeeds_drawRange ordered finite
  · exact .pure low

theorem succeeds_drawTwist : (drawRange 0 Scalar.tau : Sampling σ Float32).Succeeds :=
  Sampling.succeeds_drawRange (by decide +kernel) (by decide +kernel)

theorem Species.Valid.drawable {species : Species Float32} (valid : species.Valid) :
    species.Drawable σ where
  twist := succeeds_drawTwist
  leafSize := by
    obtain ⟨low, high, sizes, draws⟩ := species.drawingParams.drawLeafSize_cases σ
    rw [draws]
    rcases sizes with ⟨rfl, rfl⟩ | ⟨rfl, rfl⟩
    · exact succeeds_drawSize valid.leafSizeMin valid.leafSizeMax
    · exact succeeds_drawSize valid.leafSizeMax valid.leafSizeMin

theorem Species.drawable_broadleaf : (broadleaf : Species Float32).Drawable σ :=
  Species.Valid.drawable ((validate_eq_ok_iff _).mp (Except.eq_ok_of_isOk (by decide +kernel)))

/-! ## Places -/

theorem max_zero_of_not_lt {value : Float32} (notBelow : ¬value < 0) (number : value.isNaN = false) :
    Scalar.max value 0 = value := by
  unfold Scalar.max
  rw [Single.scalar_isNaN, number, if_neg Bool.false_ne_true, if_neg notBelow]

namespace Population

private theorem succeeds_drawPosition {halfExtent : Float32} (ordered : -halfExtent ≤ halfExtent)
    (finite : (halfExtent - -halfExtent).isFinite = true) (ground : Ground Float32) :
    (drawPosition halfExtent ground : Sampling σ _).Succeeds :=
  (Sampling.succeeds_drawRange ordered finite).bind fun _ =>
    (Sampling.succeeds_drawRange ordered finite).bind fun _ => .pure _

private theorem drawPosition_eq_error {halfExtent : Float32} (ordered : -halfExtent ≤ halfExtent)
    (infinite : (halfExtent - -halfExtent).isFinite = false) (ground : Ground Float32)
    (stream : σ) : drawPosition halfExtent ground stream = .error .infiniteWidth :=
  Sampling.bind_eq_error _ (Sampling.drawRange_eq_error ordered infinite stream)

theorem grow_of_drawable {config : Configuration Float32} (species : config.species.Valid)
    {halfExtent : Float32} (half : Scalar.max config.planting.halfExtent 0 = halfExtent)
    (ordered : -halfExtent ≤ halfExtent)
    (drawable : config.planting.count = 0 ∨ (halfExtent - -halfExtent).isFinite = true)
    (ground : Ground Float32) (renderer : Renderer Float32) :
    (grow config ground renderer : Sampling σ _).Succeeds := by
  unfold grow
  rw [half]
  refine Sampling.Succeeds.bind ?_ fun positions =>
    species.drawable.succeeds_plantAt positions config.felling renderer
  rcases drawable with nothing | finite
  · rw [nothing]
    exact .pure []
  · exact .mapM (fun _ => succeeds_drawPosition ordered finite ground) _

private theorem grow_of_infinite {config : Configuration Float32}
    (nonzero : config.planting.count ≠ 0) {halfExtent : Float32}
    (half : Scalar.max config.planting.halfExtent 0 = halfExtent)
    (ordered : -halfExtent ≤ halfExtent) (infinite : (halfExtent - -halfExtent).isFinite = false)
    (ground : Ground Float32) (renderer : Renderer Float32) (stream : σ) :
    grow config ground renderer stream = .error .infiniteWidth := by
  obtain ⟨others, more⟩ := Nat.exists_eq_succ_of_ne_zero nonzero
  unfold grow
  rw [half, more, Nat.succ_eq_add_one, List.replicate_succ, List.mapM_cons]
  exact Sampling.bind_eq_error _ (Sampling.bind_eq_error _
    (drawPosition_eq_error ordered infinite ground stream))

/-- A valid configuration is planted, unless the square that its trees stand in is too wide for
places to be drawn. -/
theorem grow_of_valid {config : Configuration Float32} (valid : config.validate = .ok ())
    (ground : Ground Float32) (renderer : Renderer Float32) (stream : σ) :
    if config.planting.count = 0 ∨
        (config.planting.halfExtent - -config.planting.halfExtent).isFinite = true then
      ∃ forest rest, grow config ground renderer stream = .ok (forest, rest)
    else grow config ground renderer stream = .error .infiniteWidth := by
  obtain ⟨⟨finite, notBelow⟩, species, -⟩ := (Configuration.validate_eq_ok_iff config).mp valid
  have number := (Single.isFinite_iff_place.mp finite).1
  have half := max_zero_of_not_lt notBelow number
  have ordered := Single.neg_le_self finite ((Single.not_lt_zero_iff number).mp notBelow)
  split
  · rename_i drawable
    exact grow_of_drawable species half ordered drawable ground renderer stream
  · rename_i wide
    rw [not_or, Bool.not_eq_true] at wide
    exact grow_of_infinite wide.1 half ordered wide.2 ground renderer stream

theorem grow_standard :
    (Configuration.standard : Configuration Float32).validate = .ok () ∧
      ∃ forest rest, grow (.standard : Configuration Float32) (.flat 0) .empty
        (⟨#[0], 0⟩ : Cycle) = .ok (forest, rest) := by
  have valid : (Configuration.standard : Configuration Float32).validate = .ok () :=
    Except.eq_ok_of_isOk (by decide +kernel)
  have grown := grow_of_valid valid (.flat 0) .empty (⟨#[0], 0⟩ : Cycle)
  rw [if_pos (.inr (by decide +kernel))] at grown
  exact ⟨valid, grown⟩

/-- One tree in a square wider than all finite numbers. -/
def wide : Configuration Float32 :=
  { Configuration.standard with planting := { count := 1, halfExtent := 3e38, seed := none } }

/-- The checks let a square through in which no place can be drawn. -/
theorem grow_wide :
    wide.validate = .ok () ∧
      grow wide (.flat 0) .empty (⟨#[0], 0⟩ : Cycle) = .error .infiniteWidth := by
  have valid : wide.validate = .ok () := Except.eq_ok_of_isOk (by decide +kernel)
  have half : Scalar.max wide.planting.halfExtent 0 = wide.planting.halfExtent :=
    max_zero_of_not_lt (by decide +kernel) (by decide +kernel)
  have one : wide.planting.count ≠ 0 := Nat.one_ne_zero
  have ordered : -wide.planting.halfExtent ≤ wide.planting.halfExtent := by decide +kernel
  have infinite : (wide.planting.halfExtent - -wide.planting.halfExtent).isFinite = false := by
    decide +kernel
  refine ⟨valid, ?_⟩
  exact @grow_of_infinite Cycle _ wide one _ half ordered infinite (.flat 0) .empty ⟨#[0], 0⟩

end Population

end Grove
