import Grove.Proofs.Single.Factors
import Grove.Proofs.Turtle.Radii

/-!
# Limbs

Along a limb no pair of brackets is closed that the limb began in, so every `R` that counts at one
of its segments counts at all later ones. If the factor of `R` is at most one the radii therefore
never grow along a limb. But a valid species may have a greater factor, and then they never shrink.
-/

set_option autoImplicit false

namespace Grove

open Single

/-! ## Paths -/

namespace Word

/-- An earlier place on the path to a place: no pair of brackets around it is closed by then. -/
def OnPath (word : Word) (place earlier : Nat) : Prop :=
  earlier < place ∧ ¬word.ClosedOff place earlier

instance (word : Word) (place earlier : Nat) : Decidable (word.OnPath place earlier) :=
  inferInstanceAs (Decidable (_ ∧ _))

variable {word : Word} {place earlier limit : Nat}

/-- What is closed off before the end of a path is closed off before its start. -/
theorem OnPath.closedOff (path : word.OnPath place earlier) (stays : word[earlier]? ≠ some ']')
    (below : limit < earlier) (closed : word.ClosedOff place limit) :
    word.ClosedOff earlier limit := by
  obtain ⟨opening, closing, pairs, before, inside, ends⟩ := closed
  refine ⟨opening, closing, pairs, before, inside, ?_⟩
  by_contra beyond
  have distinct : earlier ≠ closing := by
    intro same
    exact stays (same ▸ pairs.closes)
  exact path.2 ⟨opening, closing, pairs, by omega, by omega, ends⟩

theorem OnPath.thins (path : word.OnPath place earlier) (stays : word[earlier]? ≠ some ']')
    (below : limit < earlier) (thins : word.Thins earlier limit) : word.Thins place limit :=
  ⟨thins.1, fun closed => thins.2 (path.closedOff stays below closed)⟩

theorem OnPath.countThins_le (path : word.OnPath place earlier)
    (stays : word[earlier]? ≠ some ']') : word.countThins earlier ≤ word.countThins place := by
  have counted : word.countThins earlier ≤ (List.range earlier).countP (word.Thins place ·) := by
    refine List.countP_mono_left fun index member thins => ?_
    simp only [decide_eq_true_eq] at thins ⊢
    exact path.thins stays (List.mem_range.mp member) thins
  exact counted.trans (List.range_sublist.mpr path.1.le).countP_le

end Word

/-! ## The order of the radii -/

private theorem positive_of_valid {value : Float32}
    (valid : Scalar.isFinite value = true ∧ ¬value ≤ 0) :
    value.isFinite = true ∧ value.isNaN = false ∧ 0 < place value := by
  have finite : value.isFinite = true := valid.1
  have number := (isFinite_iff_place.mp finite).1
  exact ⟨finite, number, (not_le_zero_iff number).mp valid.2⟩

namespace Turtle

/-- A radius that a turtle may draw with. -/
structure Radius (least value : Float32) : Prop where
  number : value.isNaN = false
  least : place least ≤ place value

section Thinning

variable {species : Species Float32} (valid : species.Valid)

include valid

private theorem radius_begin :
    (Scalar.max species.initialRadius species.minRadius).isFinite = true ∧
      Radius species.minRadius (Scalar.max species.initialRadius species.minRadius) := by
  obtain ⟨initialFinite, initialNumber, -⟩ := positive_of_valid valid.initialRadius
  obtain ⟨leastFinite, leastNumber, -⟩ := positive_of_valid valid.minRadius
  obtain ⟨number, placed⟩ := place_max initialNumber leastNumber
  exact ⟨isFinite_max initialFinite leastFinite, number, placed ▸ le_max_right _ _⟩

/-- A factor of at most one thins a finite radius, as far as the least one. -/
theorem thin_le {radius : Float32} (decays : place species.radiusDecay ≤ place 1)
    (finite : radius.isFinite = true) (fits : Radius species.minRadius radius) :
    (species.drawingParams.thin radius).isFinite = true ∧
      Radius species.minRadius (species.drawingParams.thin radius) ∧
      place (species.drawingParams.thin radius) ≤ place radius := by
  obtain ⟨decayFinite, -, decayPositive⟩ := positive_of_valid valid.radiusDecay
  obtain ⟨leastFinite, leastNumber, leastPositive⟩ := positive_of_valid valid.minRadius
  obtain ⟨productFinite, -, below⟩ := place_mul_le finite (leastPositive.le.trans fits.least)
    decayFinite decayPositive.le decays
  obtain ⟨number, placed⟩ := place_max (isFinite_iff_place.mp productFinite).1 leastNumber
  exact ⟨isFinite_max productFinite leastFinite, ⟨number, placed.symm ▸ le_max_right _ _⟩,
    placed.symm ▸ max_le below fits.least⟩

/-- A factor of at least one does not thin a radius. -/
theorem le_thin {radius : Float32} (grows : place 1 ≤ place species.radiusDecay)
    (fits : Radius species.minRadius radius) :
    Radius species.minRadius (species.drawingParams.thin radius) ∧
      place radius ≤ place (species.drawingParams.thin radius) := by
  obtain ⟨decayFinite, -, -⟩ := positive_of_valid valid.radiusDecay
  obtain ⟨-, leastNumber, leastPositive⟩ := positive_of_valid valid.minRadius
  obtain ⟨productNumber, above⟩ :=
    le_place_mul fits.number (leastPositive.le.trans fits.least) decayFinite grows
  obtain ⟨number, placed⟩ := place_max productNumber leastNumber
  exact ⟨⟨number, placed.symm ▸ le_max_right _ _⟩, placed.symm ▸ above.trans (le_max_left _ _)⟩

private theorem thinned_antitone (decays : species.radiusDecay ≤ 1) {fewer more : Nat}
    (ordered : fewer ≤ more) :
    species.drawingParams.thinned more ≤ species.drawingParams.thinned fewer := by
  have fits : ∀ count, (species.drawingParams.thinned count).isFinite = true ∧
      Radius species.minRadius (species.drawingParams.thinned count) := by
    intro count
    induction count with
    | zero => exact radius_begin valid
    | succ count induction =>
        rw [Params.thinned, Function.iterate_succ_apply']
        obtain ⟨finite, radius, -⟩ := thin_le valid (le_iff.mp decays).2.2 induction.1 induction.2
        exact ⟨finite, radius⟩
  have falls : Antitone fun count => place (species.drawingParams.thinned count) := by
    refine antitone_nat_of_succ_le fun count => ?_
    rw [Params.thinned, Function.iterate_succ_apply']
    exact (thin_le valid (le_iff.mp decays).2.2 (fits count).1 (fits count).2).2.2
  exact le_iff.mpr ⟨(fits more).2.number, (fits fewer).2.number, falls ordered⟩

private theorem thinned_monotone (grows : 1 ≤ species.radiusDecay) {fewer more : Nat}
    (ordered : fewer ≤ more) :
    species.drawingParams.thinned fewer ≤ species.drawingParams.thinned more := by
  have fits : ∀ count, Radius species.minRadius (species.drawingParams.thinned count) := by
    intro count
    induction count with
    | zero => exact (radius_begin valid).2
    | succ count induction =>
        rw [Params.thinned, Function.iterate_succ_apply']
        exact (le_thin valid (le_iff.mp grows).2.2 induction).1
  have rises : Monotone fun count => place (species.drawingParams.thinned count) := by
    refine monotone_nat_of_le_succ fun count => ?_
    rw [Params.thinned, Params.thinned, Function.iterate_succ_apply']
    exact (le_thin valid (le_iff.mp grows).2.2 (fits count)).2
  exact le_iff.mpr ⟨(fits fewer).number, (fits more).number, rises ordered⟩

end Thinning

/-! ## Along a limb -/

variable {σ : Type} [Generator σ]

/-- The branch that is drawn for the `F` at a place, and the radius it is drawn with. -/
structure DrawnWith (params : Params Float32) (base : Vec3 Float32) (word : Word) (stream : σ)
    (drawing : Drawing Float32) (place : Nat) (radius : Float32) : Prop where
  found : word[place]? = some 'F'
  drawn : ∃ earlier between,
    drawWord params base (word.take place) stream = .ok (earlier, between) ∧
    earlier.cursor.radius = radius ∧
    drawing.branches[(word.take place).count 'F']? = some (Placement.branch
      earlier.cursor.position (earlier.cursor.advance params.segmentLength).position radius)

section Drawn

variable {params : Params Float32} {base : Vec3 Float32} {word : Word} {stream rest : σ}
  {drawing : Drawing Float32} {place : Nat}

private theorem drawnWith_thinned (run : drawWord params base word stream = .ok (drawing, rest))
    (found : word[place]? = some 'F') :
    DrawnWith params base word stream drawing place (params.thinned (word.countThins place)) := by
  obtain ⟨earlier, between, began, drawn⟩ := branch_of_found run found
  have inside := (List.getElem?_eq_some_iff.mp found).1
  exact ⟨found, earlier, between, began, (follows_drawWord inside.le began).radius, drawn⟩

theorem DrawnWith.eq_thinned {radius : Float32}
    (drawn : DrawnWith params base word stream drawing place radius) :
    radius = params.thinned (word.countThins place) := by
  obtain ⟨found, earlier, between, began, rfl, -⟩ := drawn
  exact (follows_drawWord (List.getElem?_eq_some_iff.mp found).1.le began).radius

theorem DrawnWith.countThins_le {earlier : Nat} {radius : Float32}
    (drawn : DrawnWith params base word stream drawing earlier radius)
    (path : word.OnPath place earlier) : word.countThins earlier ≤ word.countThins place := by
  refine path.countThins_le ?_
  rw [drawn.found]
  decide

end Drawn

/-- A valid species draws every word. If the factor of `R` is at most one, no branch is drawn with a
greater radius than the first one, or than a branch on the path to it. If it is at least one, none
is drawn with a smaller radius. -/
theorem narrows_of_drawWord {species : Species Float32} (valid : species.validate = .ok ())
    (base : Vec3 Float32) (word : Word) (stream : σ) :
    ∃ drawing rest, drawWord species.drawingParams base word stream = .ok (drawing, rest) ∧
      (∀ place, word[place]? = some 'F' →
        ∃ radius, DrawnWith species.drawingParams base word stream drawing place radius) ∧
      ∀ place radius, DrawnWith species.drawingParams base word stream drawing place radius →
        (species.radiusDecay ≤ 1 →
          radius ≤ (species.drawingParams.begin base).cursor.radius ∧
          ∀ earlier thicker, word.OnPath place earlier →
            DrawnWith species.drawingParams base word stream drawing earlier thicker →
            radius ≤ thicker) ∧
        (1 ≤ species.radiusDecay →
          (species.drawingParams.begin base).cursor.radius ≤ radius ∧
          ∀ earlier thinner, word.OnPath place earlier →
            DrawnWith species.drawingParams base word stream drawing earlier thinner →
            thinner ≤ radius) := by
  have checked := (Species.validate_eq_ok_iff species).mp valid
  obtain ⟨drawing, rest, run⟩ := Sampling.Succeeds.foldlM
    (checked.drawable.succeeds_step base) word (species.drawingParams.begin base) stream
  refine ⟨drawing, rest, run, fun place found => ⟨_, drawnWith_thinned run found⟩, ?_⟩
  have start : (species.drawingParams.begin base).cursor.radius =
      species.drawingParams.thinned 0 := rfl
  intro place radius drawn
  rw [start, drawn.eq_thinned]
  refine ⟨fun decays => ⟨?_, ?_⟩, fun grows => ⟨?_, ?_⟩⟩
  · exact thinned_antitone checked decays (Nat.zero_le _)
  · intro earlier thicker path other
    rw [other.eq_thinned]
    exact thinned_antitone checked decays (other.countThins_le path)
  · exact thinned_monotone checked grows (Nat.zero_le _)
  · intro earlier thinner path other
    rw [other.eq_thinned]
    exact thinned_monotone checked grows (other.countThins_le path)

/-- The last branch of a fork of the standard species is no thicker than the first one; the branch
in the brackets does not matter to it. -/
theorem narrows_of_drawWord_broadleaf :
    let word : Word := "F[RF]RF".toList
    (Species.broadleaf : Species Float32).validate = .ok () ∧
      (Species.broadleaf : Species Float32).radiusDecay ≤ 1 ∧ word.OnPath 6 0 ∧ ¬word.OnPath 6 3 ∧
      ∃ drawing rest, drawWord Species.broadleaf.drawingParams .zero word (⟨#[0], 0⟩ : Cycle) =
          .ok (drawing, rest) ∧
        ∃ first last, DrawnWith Species.broadleaf.drawingParams .zero word (⟨#[0], 0⟩ : Cycle)
            drawing 0 first ∧
          DrawnWith Species.broadleaf.drawingParams .zero word (⟨#[0], 0⟩ : Cycle)
            drawing 6 last ∧ last ≤ first := by
  intro word
  have valid : (Species.broadleaf : Species Float32).validate = .ok () :=
    Except.eq_ok_of_isOk (by decide +kernel)
  have decays : (Species.broadleaf : Species Float32).radiusDecay ≤ 1 := by decide +kernel
  have path : word.OnPath 6 0 := by decide +kernel
  obtain ⟨drawing, rest, run, draws, narrows⟩ :=
    narrows_of_drawWord valid .zero word (⟨#[0], 0⟩ : Cycle)
  obtain ⟨first, drawnFirst⟩ := draws 0 (by decide)
  obtain ⟨last, drawnLast⟩ := draws 6 (by decide)
  exact ⟨valid, decays, path, by decide +kernel, drawing, rest, run, first, last, drawnFirst,
    drawnLast, ((narrows 6 last drawnLast).1 decays).2 0 first path drawnFirst⟩

/-- A valid species whose `R` thickens. -/
def clubbed : Species Float32 :=
  { Species.broadleaf with radiusDecay := 2 }

/-- Not all valid species thin along a limb. -/
theorem clubbed_thickens :
    let word : Word := "FRF".toList
    clubbed.validate = .ok () ∧ word.OnPath 2 0 ∧
      ∃ drawing rest, drawWord clubbed.drawingParams .zero word (⟨#[0], 0⟩ : Cycle) =
          .ok (drawing, rest) ∧
        ∃ first last,
          DrawnWith clubbed.drawingParams .zero word (⟨#[0], 0⟩ : Cycle) drawing 0 first ∧
          DrawnWith clubbed.drawingParams .zero word (⟨#[0], 0⟩ : Cycle) drawing 2 last ∧
          ¬last ≤ first ∧ ¬last ≤ (clubbed.drawingParams.begin .zero).cursor.radius := by
  intro word
  have valid : clubbed.validate = .ok () := Except.eq_ok_of_isOk (by decide +kernel)
  have path : word.OnPath 2 0 := by decide +kernel
  have thicker : ¬clubbed.drawingParams.thinned (word.countThins 2) ≤
      clubbed.drawingParams.thinned (word.countThins 0) := by decide +kernel
  have thickest : ¬clubbed.drawingParams.thinned (word.countThins 2) ≤
      (clubbed.drawingParams.begin .zero).cursor.radius := by decide +kernel
  have checked := (Species.validate_eq_ok_iff clubbed).mp valid
  obtain ⟨drawing, rest, run⟩ := Sampling.Succeeds.foldlM (checked.drawable.succeeds_step .zero)
    word (clubbed.drawingParams.begin .zero) (⟨#[0], 0⟩ : Cycle)
  exact ⟨valid, path, drawing, rest, run, _, _, drawnWith_thinned run (by decide),
    drawnWith_thinned run (by decide), thicker, thickest⟩

end Turtle

end Grove
