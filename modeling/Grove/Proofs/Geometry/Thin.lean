import Grove.Proofs.Geometry.Hittable

/-!
# Thin branches and small leaves

Whether a leaf or a branch can be hit in single precision is decided by the product of its three
sizes, which is the determinant of its placement. From `2 ^ -127` on every ray can be taken into its
coordinates, and below `2 ^ -129` none.
-/

set_option autoImplicit false

namespace Grove.Placement

variable {α : Type} [Scalar α]

/-- Whether a segment is too short to be drawn with its own length and direction. -/
def isShort (bottom top : Vec3 α) : Bool :=
  decide ((top - bottom).length < shortestSegment)

/-- The length that a segment is drawn with. -/
def drawnLength (bottom top : Vec3 α) : α :=
  if isShort bottom top then shortestSegment else (top - bottom).length

/-- The direction that a segment is drawn in. -/
def drawnDirection (bottom top : Vec3 α) : Vec3 α :=
  if isShort bottom top then .up else (top - bottom) / (top - bottom).length

theorem branch_eq (bottom top : Vec3 α) (radius : α) :
    branch bottom top radius =
      .place ⟨radius, drawnLength bottom top, radius⟩
        (.rotationArc .up (drawnDirection bottom top)) ((bottom + top) * (0.5 : α)) := by
  unfold branch drawnLength drawnDirection isShort
  by_cases short : (top - bottom).length < shortestSegment
  · simp only [short, if_true, decide_true]
  · simp only [short, if_false, decide_false, Bool.false_eq_true]

end Grove.Placement

namespace Grove.Single

open Placement
open Float.Model.UnpackedFloat

/-! ## Sizes and turns -/

theorem CloseAxis.scale {exponent : ℤ} {exact : Vec4 ℝ} {axis : Vec4 Float32} {size : Float32}
    (close : CloseAxis 0 exact (2 ^ (-11 : ℤ)) axis) (within : Within exponent size)
    (least : -127 ≤ exponent) (most : exponent < 127) :
    CloseAxis exponent (exact * reading size) (1 / 2000) (axis * size) := by
  have own : Close exponent (reading size) 0 size :=
    .of_reading within.finite within.most le_rfl
  have part : ∀ {entry : ℝ} {value : Float32}, Close 0 entry (2 ^ (-11 : ℤ)) value →
      Close exponent (entry * reading size) (1 / 2000) (value * size) := by
    intro entry value closeTo
    have product := closeTo.mul own (1 / 2000) (by norm_num) (by norm_num) (by omega)
      (by omega) (by norm_num)
    rwa [zero_add] at product
  obtain ⟨finite, flat⟩ := finite_mul_of_zero close.finite within.finite (.inl close.flat)
  exact ⟨part close.x, part close.y, part close.z, finite, flat⟩

private theorem two_zpow_mul_sq (across along : ℤ) :
    (2 : ℝ) ^ (2 * across + along) = (2 ^ across) ^ 2 * 2 ^ along := by
  rw [zpow_add₀ two_ne_zero, two_zpow_sq]

private theorem exponent_le {exponent other : ℤ} (below : (2 : ℝ) ^ exponent ≤ 2 ^ other) :
    exponent ≤ other :=
  (zpow_le_zpow_iff_right₀ one_lt_two).mp below

private theorem exists_power {size : ℝ} (positive : 0 < size) :
    ∃ exponent : ℤ, size ≤ 2 ^ exponent ∧ 2 ^ exponent ≤ 2 * size := by
  have below := Int.zpow_log_le_self (b := 2) one_lt_two positive
  have above := Int.lt_zpow_succ_log_self (b := 2) one_lt_two size
  rw [Nat.cast_two] at below above
  refine ⟨Int.log 2 size + 1, above.le, ?_⟩
  rw [two_zpow_add_one]
  linarith

/-- Powers of two that measure the radius and the length of a placement, and so its volume. -/
structure Measures (radius length : ℝ) (across along : ℤ) : Prop where
  radius_pos : 0 < radius
  length_pos : 0 < length
  radius_le : radius ≤ 2 ^ across
  length_le : length ≤ 2 ^ along
  across_le : 2 ^ across ≤ 2 * radius
  along_le : 2 ^ along ≤ 2 * length

private theorem exists_measures {radius length : ℝ} (radiusPositive : 0 < radius)
    (lengthPositive : 0 < length) : ∃ across along, Measures radius length across along := by
  obtain ⟨across, radiusBelow, acrossBelow⟩ := exists_power radiusPositive
  obtain ⟨along, lengthBelow, alongBelow⟩ := exists_power lengthPositive
  exact ⟨across, along, radiusPositive, lengthPositive, radiusBelow, lengthBelow, acrossBelow,
    alongBelow⟩

namespace Measures

variable {radius length : ℝ} {across along : ℤ}

private theorem volume_le (measures : Measures radius length across along) :
    radius ^ 2 * length ≤ 2 ^ (2 * across + along) := by
  rw [two_zpow_mul_sq]
  exact mul_le_mul (pow_le_pow_left₀ measures.radius_pos.le measures.radius_le 2)
    measures.length_le measures.length_pos.le (by positivity)

private theorem le_volume (measures : Measures radius length across along) :
    2 ^ (2 * across + along) ≤ 8 * (radius ^ 2 * length) := by
  have radiusPositive := measures.radius_pos
  rw [two_zpow_mul_sq]
  calc ((2 : ℝ) ^ across) ^ 2 * 2 ^ along ≤ (2 * radius) ^ 2 * (2 * length) :=
        mul_le_mul (pow_le_pow_left₀ (by positivity) measures.across_le 2) measures.along_le
          (by positivity) (by positivity)
    _ = 8 * (radius ^ 2 * length) := by ring

private theorem along_bounds {size : Float32}
    (measures : Measures radius (reading size) across along)
    (within : Within 33 size) (long : 2 ^ (-45 : ℤ) ≤ reading size) : -45 ≤ along ∧ along ≤ 34 := by
  have most := within.most
  rw [abs_of_pos measures.length_pos] at most
  exact ⟨exponent_le (long.trans measures.length_le),
    exponent_le (measures.along_le.trans (by norm_num at *; linarith))⟩

end Measures

/-- A point whose coordinates are not beyond `2 ^ 30`. -/
structure InBox (point : Vec3 Float32) : Prop where
  x : Within 30 point.x
  y : Within 30 point.y
  z : Within 30 point.z

theorem within_of_le {value : Float32} (low : -1073741824 ≤ value) (high : value ≤ 1073741824) :
    Within 30 value := by
  have lowSaid : meaning (-1073741824) = .finite .negative (2 ^ 23) 7 (by decide) := rfl
  have highSaid : meaning 1073741824 = .finite .positive (2 ^ 23) 7 (by decide) := rfl
  obtain ⟨lowNumber, number, below⟩ := le_iff.mp low
  obtain ⟨-, -, above⟩ := le_iff.mp high
  have lowPlace : place (-1073741824) = -1317011456 := by decide
  have highPlace : place 1073741824 = 1317011456 := by decide
  have finite : value.isFinite = true := by
    rw [isFinite_iff_place]
    unfold endPlace
    exact ⟨number, by omega, by omega⟩
  have least := reading_le (by decide) finite below
  have most := reading_le finite (by decide) above
  rw [reading_of_finite lowSaid] at least
  rw [reading_of_finite highSaid] at most
  refine ⟨finite, abs_le.mpr ⟨?_, ?_⟩⟩
  · norm_num [factor] at least ⊢
    linarith
  · norm_num [factor] at most ⊢
    linarith

section Place

variable {exact : Quat ℝ} {turn : Quat Float32} {radius length : Float32} {offset : Vec3 Float32}

private theorem closePlacement_place {across along : ℤ} (close : CloseTurn exact turn)
    (unit : exact.lengthSquared = 1) (ofRadius : Within across radius)
    (ofLength : Within along length) (box : InBox offset) (range : InRange across along) :
    ClosePlacement across along
      (.place ⟨reading radius, reading length, reading radius⟩ exact .zero)
      (.place ⟨radius, length, radius⟩ turn offset) := by
  obtain ⟨x, y, z⟩ := close.rotation unit
  have acrossBounds := range.acrossBounds
  have alongBounds := range.alongBounds
  exact ⟨x.scale ofRadius (by omega) (by omega), y.scale ofLength (by omega) (by omega),
    z.scale ofRadius (by omega) (by omega), ⟨box.x, box.y, box.z⟩, rfl, range⟩

private theorem place_volume_eq (unit : exact.lengthSquared = 1) (offset : Vec3 ℝ) :
    (Mat4.place ⟨reading radius, reading length, reading radius⟩ exact offset).volume =
      reading radius ^ 2 * reading length := by
  rw [Mat4.place_volume, Mat4.rotation_volume unit]
  ring

private theorem isSome_toLocal?_place (close : CloseTurn exact turn)
    (unit : exact.lengthSquared = 1) (ofRadius : Within 30 radius) (positive : 0 < reading radius)
    (ofLength : Within 33 length) (long : 2 ^ (-45 : ℤ) ≤ reading length) (box : InBox offset)
    (thick : 2 ^ (-127 : ℤ) ≤ reading radius ^ 2 * reading length) (ray : Ray Float32) :
    (ray.toLocal? (.place ⟨radius, length, radius⟩ turn offset)).isSome = true := by
  obtain ⟨across, along, measures⟩ := exists_measures positive ((zpow_pos two_pos _).trans_le long)
  have volume : -127 ≤ 2 * across + along := exponent_le (thick.trans measures.volume_le)
  have acrossMost : across ≤ 31 := by
    have most := ofRadius.most
    rw [abs_of_pos positive] at most
    exact exponent_le (measures.across_le.trans (by norm_num at *; linarith))
  obtain ⟨alongLeast, alongMost⟩ := measures.along_bounds ofLength long
  have placed := closePlacement_place close unit
    ⟨ofRadius.finite, (abs_of_pos positive).trans_le measures.radius_le⟩
    ⟨ofLength.finite, (abs_of_pos measures.length_pos).trans_le measures.length_le⟩ box
    ⟨⟨by omega, acrossMost⟩, ⟨alongLeast, alongMost⟩, volume⟩
  refine placed.isSome_toLocal? ?_ ?_ ray
  · rwa [place_volume_eq unit]
  · rw [place_volume_eq unit]
    exact measures.le_volume

private theorem toLocal?_place_eq_none (close : CloseTurn exact turn)
    (unit : exact.lengthSquared = 1) (radiusFinite : radius.isFinite = true)
    (positive : 0 < reading radius) (ofLength : Within 33 length)
    (long : 2 ^ (-45 : ℤ) ≤ reading length) (box : InBox offset)
    (thin : reading radius ^ 2 * reading length ≤ 2 ^ (-129 : ℤ)) (ray : Ray Float32) :
    ray.toLocal? (.place ⟨radius, length, radius⟩ turn offset) = none := by
  obtain ⟨least, along, measures⟩ := exists_measures positive ((zpow_pos two_pos _).trans_le long)
  obtain ⟨alongLeast, alongMost⟩ := measures.along_bounds ofLength long
  have room : 2 * least + along ≤ -126 := by
    refine exponent_le (measures.le_volume.trans ?_)
    calc 8 * (reading radius ^ 2 * reading length) ≤ 8 * 2 ^ (-129 : ℤ) :=
          mul_le_mul_of_nonneg_left thin (by norm_num)
      _ = 2 ^ (-126 : ℤ) := by norm_num
  -- The radius may be far smaller than the volume is measured for.
  obtain ⟨across, isAcross⟩ : ∃ across, across = (-126 - along) / 2 := ⟨_, rfl⟩
  have below : reading radius ≤ 2 ^ across :=
    measures.radius_le.trans (zpow_le_zpow_right₀ one_le_two (by omega))
  have placed := closePlacement_place close unit
    ⟨radiusFinite, (abs_of_pos positive).trans_le below⟩
    ⟨ofLength.finite, (abs_of_pos measures.length_pos).trans_le measures.length_le⟩ box
    ⟨⟨by omega, by omega⟩, ⟨alongLeast, alongMost⟩, by omega⟩
  refine placed.toLocal?_eq_none ?_ (by omega) ray
  rw [place_volume_eq unit, abs_of_pos (mul_pos (pow_pos positive 2) measures.length_pos)]
  exact thin

end Place

/-- Every ray can be taken into the coordinates of a placement if a volume is at least `2 ^ -127`, and
no ray if it is at most `2 ^ -129`. -/
structure DecidedBy (volume : ℝ) (placement : Mat4 Float32) : Prop where
  hit : 2 ^ (-127 : ℤ) ≤ volume → ∀ ray : Ray Float32, (ray.toLocal? placement).isSome = true
  missed : volume ≤ 2 ^ (-129 : ℤ) → ∀ ray : Ray Float32, ray.toLocal? placement = none

/-! ## Leaves -/

theorem decidedBy_leaf {center : Vec3 Float32} {size : Float32} (box : InBox center)
    (ofSize : Within 30 size) (positive : 0 < reading size) :
    DecidedBy (reading size ^ 3) (Placement.leaf center size) where
  hit large ray := by
    have long : 2 ^ (-45 : ℤ) ≤ reading size := by
      refine le_of_pow_le_pow_left₀ three_ne_zero positive.le (le_trans ?_ large)
      norm_num
    exact isSome_toLocal?_place closeTurn_identity Quat.lengthSquared_identity ofSize positive
      (ofSize.mono (by norm_num)) long box (by rwa [← pow_succ]) ray
  missed small ray := by
    have below : reading size ≤ 2 ^ (-43 : ℤ) := by
      refine le_of_pow_le_pow_left₀ three_ne_zero (by positivity) (small.trans ?_)
      norm_num
    have within : Within (-42) size :=
      ⟨ofSize.finite, (abs_of_pos positive).trans_le
        (below.trans (zpow_le_zpow_right₀ one_le_two (by norm_num)))⟩
    have placed := closePlacement_place closeTurn_identity Quat.lengthSquared_identity within within
      box ⟨by norm_num, by norm_num, by norm_num⟩
    refine placed.toLocal?_eq_none ?_ (by norm_num) ray
    rw [place_volume_eq Quat.lengthSquared_identity, ← pow_succ, abs_of_pos (by positivity)]
    exact small

/-! ## Branches -/

private theorem within_lengthSquared {vector : Vec3 Float32} {exponent : ℤ}
    (x : Within exponent vector.x)
    (y : Within exponent vector.y) (z : Within exponent vector.z) (least : -70 ≤ exponent)
    (most : exponent ≤ 60) : Within (2 * exponent + 2) vector.lengthSquared := by
  have pair := (x.mul x (by omega) (by omega)).add (y.mul y (by omega) (by omega)) (by omega)
    (by omega)
  exact (pair.add ((z.mul z (by omega) (by omega)).mono (by omega)) (by omega) (by omega)).mono
    (by omega)

private theorem within_length {vector : Vec3 Float32} {exponent : ℤ} (x : Within exponent vector.x)
    (y : Within exponent vector.y) (z : Within exponent vector.z) (least : -70 ≤ exponent)
    (most : exponent ≤ 60) :
    Within (exponent + 1) vector.length ∧
      Near √(reading vector.lengthSquared) vector.length := by
  have squared := within_lengthSquared x y z least most
  have nonneg : 0 ≤ reading vector.lengthSquared := by
    have near := near_sum squared.finite
    have pair := near_sum (finite_of_add squared.finite).1
    have square : ∀ {part : Float32}, (part * part).isFinite = true → 0 ≤ reading (part * part) :=
      fun finite => (near_square finite).least 0 onGrid_zero (sq_nonneg _)
    have first := square (finite_of_add (finite_of_add squared.finite).1).1
    have second := square (finite_of_add (finite_of_add squared.finite).1).2
    have third := square (finite_of_add squared.finite).2
    exact near.least 0 onGrid_zero
      (add_nonneg (pair.least 0 onGrid_zero (add_nonneg first second)) third)
  have below : |√(reading vector.lengthSquared)| ≤ 2 ^ (exponent + 1) := by
    rw [abs_of_nonneg (Real.sqrt_nonneg _)]
    refine Real.sqrt_le_iff.mpr ⟨by positivity, ?_⟩
    rw [two_zpow_sq, mul_add, mul_one]
    exact (le_abs_self _).trans squared.most
  have near : Near √(reading vector.lengthSquared) vector.length :=
    (rounds_sqrt squared.finite nonneg).near_two_zpow below (by omega) (by omega)
  exact ⟨⟨near.finite, near.abs_reading_le (onGrid_two_zpow (by omega)) below⟩, near⟩

/-- No part of a vector is more than twice as long as the whole. -/
theorem part_le_length {vector : Vec3 Float32} (finite : vector.lengthSquared.isFinite = true)
    (near : Near √(reading vector.lengthSquared) vector.length)
    (long : 2 ^ (-14 : ℤ) ≤ reading vector.length) :
    ∀ part ∈ parts vector, |reading part| ≤ 2 * reading vector.length := by
  intro part member
  rcases le_or_gt |reading part| (2 ^ (-14 : ℤ)) with short | great
  · have unit : (0 : ℝ) < 2 ^ (-14 : ℤ) := zpow_pos two_pos _
    linarith
  · have positive : 0 < |reading part| := (zpow_pos two_pos _).trans great
    obtain ⟨high, below, above⟩ := exists_power positive
    obtain ⟨low, rfl⟩ : ∃ low, high = low + 1 := ⟨high - 1, by omega⟩
    rw [two_zpow_add_one] at below above
    have least : -15 < low := by
      have powers : (2 : ℝ) ^ (-14 : ℤ) < 2 ^ (low + 1) :=
        great.trans_le (by rwa [two_zpow_add_one])
      have := (zpow_lt_zpow_iff_right₀ one_lt_two).mp powers
      omega
    have square := le_lengthSquared finite ⟨part, member, by linarith⟩ (by omega : -70 ≤ low)
    have root : (2 : ℝ) ^ low ≤ √(reading vector.lengthSquared) :=
      Real.le_sqrt_of_sq_le (by rwa [two_zpow_sq])
    have whole := near.least _ (onGrid_two_zpow (by omega)) root
    linarith

private theorem reading_shortestSegment :
    (shortestSegment : Float32).isFinite = true ∧
      2 ^ (-14 : ℤ) ≤ reading (shortestSegment : Float32) ∧
        reading (shortestSegment : Float32) ≤ 1 := by
  have said : meaning (shortestSegment : Float32) = .finite .positive 13743895 (-37) (by decide) :=
    rfl
  refine ⟨by decide, ?_, ?_⟩ <;> rw [reading_of_finite said] <;> norm_num [factor]

/-- What a segment in the box is drawn with. -/
theorem drawn_within {bottom top : Vec3 Float32} (ofBottom : InBox bottom) (ofTop : InBox top) :
    (Within 1 (drawnDirection bottom top).x ∧ Within 1 (drawnDirection bottom top).y ∧
      Within 1 (drawnDirection bottom top).z) ∧
    Within 33 (drawnLength bottom top) ∧ 2 ^ (-14 : ℤ) ≤ reading (drawnLength bottom top) := by
  obtain ⟨shortestFinite, shortestLeast, shortestMost⟩ := reading_shortestSegment
  have x : Within 31 (top - bottom).x := ofTop.x.sub ofBottom.x (by norm_num) (by norm_num)
  have y : Within 31 (top - bottom).y := ofTop.y.sub ofBottom.y (by norm_num) (by norm_num)
  have z : Within 31 (top - bottom).z := ofTop.z.sub ofBottom.z (by norm_num) (by norm_num)
  obtain ⟨length, near⟩ := within_length x y z (by norm_num) (by norm_num)
  cases short : isShort bottom top with
  | true =>
      simp only [drawnDirection, drawnLength, short, if_true]
      have zero : Within 1 (0 : Float32) := .of_reading_eq_zero (by decide) reading_zero
      refine ⟨⟨zero, within_one.mono (by norm_num), zero⟩, ⟨shortestFinite, ?_⟩, shortestLeast⟩
      rw [abs_of_pos ((zpow_pos two_pos _).trans_le shortestLeast)]
      exact shortestMost.trans (one_le_zpow₀ one_le_two (by norm_num))
  | false =>
      simp only [drawnDirection, drawnLength, short, Bool.false_eq_true, if_false]
      have long : 2 ^ (-14 : ℤ) ≤ reading (top - bottom).length := by
        refine shortestLeast.trans (reading_le shortestFinite length.finite ?_)
        have apart := of_decide_eq_false short
        by_contra below
        exact apart (lt_iff.mpr ⟨(isFinite_iff_place.mp length.finite).1, by decide, by omega⟩)
      have positive : 0 < reading (top - bottom).length := (zpow_pos two_pos _).trans_le long
      have bounded := part_le_length
        (within_lengthSquared x y z (by norm_num) (by norm_num)).finite near long
      have divided : ∀ {part : Float32}, Within 31 part → part ∈ parts (top - bottom) →
          Within 1 (part / (top - bottom).length) := by
        intro part within member
        refine .of_rounds (rounds_div within.finite length.finite positive.ne') ?_ (by norm_num)
          (by norm_num)
        rw [← div_eq_mul_inv, abs_div, abs_of_pos positive, div_le_iff₀ positive, zpow_one]
        exact bounded part member
      exact ⟨⟨divided x (by simp [parts]), divided y (by simp [parts]), divided z (by simp [parts])⟩,
        length.mono (by norm_num), long⟩

theorem InBox.middle {bottom top : Vec3 Float32} (ofBottom : InBox bottom) (ofTop : InBox top) :
    InBox ((bottom + top) * (0.5 : Float32)) := by
  have said : meaning (0.5 : Float32) = .finite .positive (2 ^ 23) (-24) (by decide) := rfl
  have half : Within (-1) (0.5 : Float32) :=
    ⟨by decide, by rw [reading_of_finite said]; norm_num [factor]⟩
  have part : ∀ {first second : Float32}, Within 30 first → Within 30 second →
      Within 30 ((first + second) * 0.5) := fun a b =>
    (a.add b (by norm_num) (by norm_num)).mul half (by norm_num) (by norm_num)
  exact ⟨part ofBottom.x ofTop.x, part ofBottom.y ofTop.y, part ofBottom.z ofTop.z⟩

/-- A segment in the box. Where it runs straight down, it is turned by sines and cosines, which are
those of a right angle. -/
structure Placeable (bottom top : Vec3 Float32) (radius : Float32) : Prop where
  begins : InBox bottom
  ends : InBox top
  thickness : Within 30 radius
  downward : Vec3.up.dot (drawnDirection bottom top) < -closeness → RightAngle

theorem decidedBy_branch {bottom top : Vec3 Float32} {radius : Float32}
    (placeable : Placeable bottom top radius) (positive : 0 < reading radius) :
    DecidedBy (reading radius ^ 2 * reading (drawnLength bottom top))
      (branch bottom top radius) := by
  obtain ⟨ofBottom, ofTop, ofRadius, downward⟩ := placeable
  obtain ⟨⟨x, y, z⟩, length, least⟩ := drawn_within ofBottom ofTop
  obtain ⟨exact, unit, close⟩ := exists_turn_of_rotationArc x y z downward
  have long : 2 ^ (-45 : ℤ) ≤ reading (drawnLength bottom top) :=
    (zpow_le_zpow_right₀ one_le_two (by norm_num)).trans least
  rw [branch_eq]
  exact ⟨isSome_toLocal?_place close unit ofRadius positive length long (ofBottom.middle ofTop),
    toLocal?_place_eq_none close unit ofRadius.finite positive length long
      (ofBottom.middle ofTop)⟩

end Grove.Single
