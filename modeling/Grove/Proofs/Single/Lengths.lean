import Grove.Linear.Vector
import Grove.Proofs.Single.Bounds

/-!
# Lengths and unit vectors

As long as the square of a length does not overflow, scaling a vector by its inverse length gives a
vector whose greatest part is neither great nor small. The bounds are powers of two, so that no
rounding carries a result past them.
-/

set_option autoImplicit false

namespace Grove.Single

open Float.Model.UnpackedFloat

def parts (vector : Vec3 Float32) : List Float32 :=
  [vector.x, vector.y, vector.z]

theorem isFinite_iff_parts {vector : Vec3 Float32} :
    vector.isFinite = true ↔ ∀ part ∈ parts vector, part.isFinite = true := by
  simp only [parts, List.forall_mem_cons, Vec3.isFinite, Bool.and_eq_true, and_assoc]
  exact ⟨fun ⟨x, y, z⟩ => ⟨x, y, z, nofun⟩, fun ⟨x, y, z, _⟩ => ⟨x, y, z⟩⟩

/-- A finite vector all of whose parts, and one of them from below, are bounded by powers of
two. -/
structure Spans (vector : Vec3 Float32) (low high : ℤ) : Prop where
  finite : ∀ part ∈ parts vector, part.isFinite = true
  least : ∃ part ∈ parts vector, 2 ^ low ≤ |reading part|
  most : ∀ part ∈ parts vector, |reading part| ≤ 2 ^ high

theorem Spans.low_le_high {vector : Vec3 Float32} {low high : ℤ} (spans : Spans vector low high) :
    low ≤ high := by
  obtain ⟨part, member, least⟩ := spans.least
  exact (zpow_le_zpow_iff_right₀ one_lt_two).mp (least.trans (spans.most part member))

/-! ## Powers of two -/

theorem two_zpow_add_one (exponent : ℤ) : (2 : ℝ) ^ (exponent + 1) = 2 * 2 ^ exponent := by
  rw [zpow_add_one₀ two_ne_zero, mul_comm]

theorem two_zpow_add_two (exponent : ℤ) : (2 : ℝ) ^ (exponent + 2) = 4 * 2 ^ exponent := by
  rw [zpow_add₀ two_ne_zero]
  norm_num [mul_comm]

theorem two_zpow_sq (exponent : ℤ) : ((2 : ℝ) ^ exponent) ^ 2 = 2 ^ (2 * exponent) := by
  rw [mul_comm, zpow_mul, zpow_ofNat]

/-! ## Sums of squares -/

theorem near_square {value : Float32} (finite : (value * value).isFinite = true) :
    Near (reading value ^ 2) (value * value) := by
  have own := (finite_of_mul finite).1
  rw [sq]
  exact (rounds_mul own own).near_of_finite finite

theorem near_sum {left right : Float32} (finite : (left + right).isFinite = true) :
    Near (reading left + reading right) (left + right) := by
  obtain ⟨leftFinite, rightFinite⟩ := finite_of_add finite
  exact (rounds_add leftFinite rightFinite).near_of_finite finite

theorem square_le {value : Float32} {exponent : ℤ} (most : |reading value| ≤ 2 ^ exponent) :
    reading value ^ 2 ≤ 2 ^ (2 * exponent) := by
  rw [← two_zpow_sq, ← sq_abs]
  exact pow_le_pow_left₀ (abs_nonneg _) most 2

theorem le_square {value : Float32} {exponent : ℤ} (least : 2 ^ exponent ≤ |reading value|) :
    2 ^ (2 * exponent) ≤ reading value ^ 2 := by
  rw [← two_zpow_sq, ← sq_abs (reading value)]
  exact pow_le_pow_left₀ (by positivity) least 2

theorem finite_squares {vector : Vec3 Float32} (finite : vector.lengthSquared.isFinite = true) :
    ∀ part ∈ parts vector, (part * part).isFinite = true := by
  obtain ⟨firstFinite, zFinite⟩ := finite_of_add finite
  obtain ⟨xFinite, yFinite⟩ := finite_of_add firstFinite
  simp only [parts, List.forall_mem_cons]
  exact ⟨xFinite, yFinite, zFinite, nofun⟩

theorem lengthSquared_le {vector : Vec3 Float32} {high : ℤ}
    (finite : vector.lengthSquared.isFinite = true)
    (most : ∀ part ∈ parts vector, |reading part| ≤ 2 ^ high) (range : -70 ≤ high) :
    reading vector.lengthSquared ≤ 2 ^ (2 * high + 2) := by
  have squares : ∀ part ∈ parts vector, reading (part * part) ≤ 2 ^ (2 * high) :=
    fun part member => (near_square (finite_squares finite part member)).most _
      (onGrid_two_zpow (by omega)) (square_le (most part member))
  simp only [parts, List.forall_mem_cons] at squares
  obtain ⟨x, y, z, -⟩ := squares
  have doubled := two_zpow_add_one (2 * high)
  have fourfold := two_zpow_add_two (2 * high)
  have unit : (0 : ℝ) < 2 ^ (2 * high) := zpow_pos two_pos _
  have grid : OnGrid ((2 : ℝ) ^ (2 * high + 1)) := onGrid_two_zpow (by omega)
  have first := (near_sum (finite_of_add finite).1).most _ grid (by linarith)
  exact (near_sum finite).most _ (onGrid_two_zpow (by omega)) (by linarith)

theorem le_lengthSquared {vector : Vec3 Float32} {low : ℤ}
    (finite : vector.lengthSquared.isFinite = true)
    (least : ∃ part ∈ parts vector, 2 ^ low ≤ |reading part|) (range : -70 ≤ low) :
    2 ^ (2 * low) ≤ reading vector.lengthSquared := by
  have nonneg : ∀ part ∈ parts vector, 0 ≤ reading (part * part) := fun part member =>
    (near_square (finite_squares finite part member)).least 0 onGrid_zero (sq_nonneg _)
  simp only [parts, List.forall_mem_cons] at nonneg
  obtain ⟨x, y, z, -⟩ := nonneg
  have grid : OnGrid ((2 : ℝ) ^ (2 * low)) := onGrid_two_zpow (by omega)
  have first := near_sum (finite_of_add finite).1
  have both := first.least 0 onGrid_zero (by linarith)
  have all := near_sum finite
  obtain ⟨part, member, great⟩ := least
  have square := (near_square (finite_squares finite part member)).least _ grid (le_square great)
  simp only [parts, List.mem_cons, List.not_mem_nil, or_false] at member
  rcases member with rfl | rfl | rfl
  · exact all.least _ grid (by linarith [first.least _ grid (by linarith)])
  · exact all.least _ grid (by linarith [first.least _ grid (by linarith)])
  · exact all.least _ grid (by linarith)

/-- The square of a length that is not great does not overflow. -/
theorem lengthSquared_finite {vector : Vec3 Float32} {low high : ℤ} (spans : Spans vector low high)
    (least : -70 ≤ low) (most : high ≤ 60) : vector.lengthSquared.isFinite = true := by
  have ordered := spans.low_le_high
  have squares : ∀ part ∈ parts vector, (part * part).isFinite = true ∧
      |reading (part * part)| ≤ 2 ^ (2 * high) := by
    intro part member
    have own := spans.finite part member
    have bounded : |reading part * reading part| ≤ 2 ^ (2 * high) := by
      rw [← sq, abs_of_nonneg (sq_nonneg _)]
      exact square_le (spans.most part member)
    have near := (rounds_mul own own).near_two_zpow bounded (by omega) (by omega)
    exact ⟨near.finite, near.abs_reading_le (onGrid_two_zpow (by omega)) bounded⟩
  simp only [parts, List.forall_mem_cons] at squares
  obtain ⟨⟨xFinite, xBelow⟩, ⟨yFinite, yBelow⟩, ⟨zFinite, zBelow⟩, -⟩ := squares
  have doubled := two_zpow_add_one (2 * high)
  have fourfold := two_zpow_add_two (2 * high)
  have firstBelow := (abs_add_le _ _).trans (add_le_add xBelow yBelow)
  rw [← two_mul, ← doubled] at firstBelow
  have first := (rounds_add xFinite yFinite).near_two_zpow firstBelow (by omega) (by omega)
  have rounded := first.abs_reading_le (onGrid_two_zpow (by omega)) firstBelow
  have unit : (0 : ℝ) < 2 ^ (2 * high) := zpow_pos two_pos _
  have four : (2 : ℝ) ^ (2 * high + 1) + 2 ^ (2 * high) ≤ 2 ^ (2 * high + 2) := by linarith
  have allBelow := ((abs_add_le _ _).trans (add_le_add rounded zBelow)).trans four
  exact ((rounds_add first.finite zFinite).near_two_zpow allBelow (by omega) (by omega)).finite

theorem lengthSquared_lt_of_short {vector : Vec3 Float32}
    (finite : vector.lengthSquared.isFinite = true)
    (short : ∀ part ∈ parts vector, |reading part| ≤ 2 ^ (-12 : ℤ)) :
    vector.lengthSquared < 1e-6 := by
  have said : meaning (1e-6 : Float32) = .finite .positive 8796093 (-43) (by decide) := rfl
  have few : reading vector.lengthSquared ≤ 2 ^ (2 * -12 + 2 : ℤ) :=
    lengthSquared_le finite short (by norm_num)
  refine lt_iff.mpr ⟨(isFinite_iff_place.mp finite).1, by decide, ?_⟩
  by_contra ordered
  have above := reading_le (by decide) finite (Int.not_lt.mp ordered)
  rw [reading_of_finite said] at above
  norm_num [factor] at above few
  linarith

/-- A vector that is not too short and whose squared length does not overflow has a greatest part
between two neighbouring powers of two. -/
theorem exists_spans {vector : Vec3 Float32} (finite : vector.lengthSquared.isFinite = true)
    (apart : ¬vector.lengthSquared < 1e-6) :
    ∃ low, -20 ≤ low ∧ low < 70 ∧ Spans vector low (low + 1) := by
  obtain ⟨greatest, member, most⟩ := Set.exists_max_image {part | part ∈ parts vector}
    (fun part => |reading part|) (parts vector).finite_toSet ⟨vector.x, .head _⟩
  have long : 2 ^ (-12 : ℤ) < |reading greatest| := by
    by_contra short
    exact apart (lengthSquared_lt_of_short finite
      fun part other => (most part other).trans (not_lt.mp short))
  -- The lower of the two powers is the greatest one below the greatest part.
  have positive : 0 < |reading greatest| := (zpow_pos two_pos _).trans long
  have least : -12 ≤ Int.log 2 |reading greatest| :=
    (Int.zpow_le_iff_le_log one_lt_two positive).mp (by exact_mod_cast long.le)
  have below := Int.zpow_log_le_self (b := 2) one_lt_two positive
  have above := Int.lt_zpow_succ_log_self (b := 2) one_lt_two |reading greatest|
  obtain ⟨low, isLow⟩ : ∃ low, low = Int.log 2 |reading greatest| := ⟨_, rfl⟩
  rw [← isLow, Nat.cast_two] at below above
  rw [← isLow] at least
  have spans : Spans vector low (low + 1) :=
    ⟨fun part member => (finite_of_mul (finite_squares finite part member)).1,
      ⟨greatest, member, below⟩, fun part other => (most part other).trans above.le⟩
  have square := (le_lengthSquared finite spans.least (by omega)).trans_lt
    (abs_lt.mp (abs_reading_lt vector.lengthSquared)).2
  have small : 2 * low < 128 := (zpow_lt_zpow_iff_right₀ (one_lt_two (α := ℝ))).mp (by
    exact_mod_cast square)
  exact ⟨low, by omega, by omega, spans⟩

/-! ## Scaling to length one -/

theorem near_length {vector : Vec3 Float32} {low high : ℤ} (spans : Spans vector low high)
    (finite : vector.lengthSquared.isFinite = true) (least : -70 ≤ low) (most : high ≤ 70) :
    vector.length.isFinite = true ∧ 2 ^ low ≤ reading vector.length ∧
      reading vector.length ≤ 2 ^ (high + 1) := by
  have ordered := spans.low_le_high
  have below := le_lengthSquared finite spans.least least
  have above := lengthSquared_le finite spans.most (by omega)
  have nonneg : 0 ≤ reading vector.lengthSquared := (zpow_pos two_pos _).le.trans below
  have lower : (2 : ℝ) ^ low ≤ √(reading vector.lengthSquared) :=
    Real.le_sqrt_of_sq_le (two_zpow_sq low ▸ below)
  have upper : √(reading vector.lengthSquared) ≤ 2 ^ (high + 1) := by
    refine Real.sqrt_le_iff.mpr ⟨by positivity, ?_⟩
    rwa [two_zpow_sq, mul_add, mul_one]
  have near : Near √(reading vector.lengthSquared) vector.length :=
    (rounds_sqrt finite nonneg).near_two_zpow ((abs_of_nonneg (Real.sqrt_nonneg _)).trans_le upper)
      (by omega) (by omega)
  exact ⟨near.finite, near.least _ (onGrid_two_zpow (by omega)) lower,
    near.most _ (onGrid_two_zpow (by omega)) upper⟩

theorem near_inverse {value : Float32} {low high : ℤ} (finite : value.isFinite = true)
    (below : 2 ^ low ≤ reading value) (above : reading value ≤ 2 ^ high) (least : -100 ≤ low)
    (most : high ≤ 100) :
    (1 / value).isFinite = true ∧ 2 ^ (-high) ≤ reading (1 / value) ∧
      reading (1 / value) ≤ 2 ^ (-low) := by
  have unit : (0 : ℝ) < 2 ^ low := zpow_pos two_pos low
  have ordered : low ≤ high := (zpow_le_zpow_iff_right₀ one_lt_two).mp (below.trans above)
  have positive : 0 < reading value := unit.trans_le below
  have rounds := rounds_div (by decide : (1 : Float32).isFinite = true) finite positive.ne'
  rw [reading_one, one_mul] at rounds
  have lower : (2 : ℝ) ^ (-high) ≤ (reading value)⁻¹ := by
    rw [zpow_neg]
    exact inv_anti₀ positive above
  have upper : (reading value)⁻¹ ≤ 2 ^ (-low) := by
    rw [zpow_neg]
    exact inv_anti₀ unit below
  have near : Near (reading value)⁻¹ (1 / value) :=
    rounds.near_two_zpow ((abs_of_pos (inv_pos.mpr positive)).trans_le upper) (by omega)
      (by omega)
  exact ⟨near.finite, near.least _ (onGrid_two_zpow (by omega)) lower,
    near.most _ (onGrid_two_zpow (by omega)) upper⟩

theorem Spans.scale {vector : Vec3 Float32} {low high least most : ℤ} {scale : Float32}
    (spans : Spans vector low high) (finite : scale.isFinite = true)
    (below : 2 ^ least ≤ reading scale) (above : reading scale ≤ 2 ^ most)
    (lowest : -149 ≤ low + least) (highest : high + most < 128) :
    Spans (vector * scale) (low + least) (high + most) := by
  have ordered := spans.low_le_high
  have scaleOrdered : least ≤ most := (zpow_le_zpow_iff_right₀ one_lt_two).mp (below.trans above)
  have nonneg : 0 ≤ reading scale := (zpow_pos two_pos _).le.trans below
  have near : ∀ part ∈ parts vector, Near (reading part * reading scale) (part * scale) ∧
      |reading part * reading scale| ≤ 2 ^ (high + most) := by
    intro part member
    have bounded : |reading part * reading scale| ≤ 2 ^ (high + most) := by
      rw [abs_mul, abs_of_nonneg nonneg, zpow_add₀ two_ne_zero]
      exact mul_le_mul (spans.most part member) above nonneg (by positivity)
    exact ⟨(rounds_mul (spans.finite part member) finite).near_two_zpow bounded
      (by omega) highest, bounded⟩
  have scaled : parts (vector * scale) = (parts vector).map (· * scale) := rfl
  refine ⟨?_, ?_, ?_⟩
  · rw [scaled, List.forall_mem_map]
    exact fun part member => (near part member).1.finite
  · obtain ⟨part, member, great⟩ := spans.least
    refine ⟨part * scale, scaled ▸ List.mem_map_of_mem member,
      (near part member).1.le_abs_reading (onGrid_two_zpow lowest) ?_⟩
    rw [abs_mul, abs_of_nonneg nonneg, zpow_add₀ two_ne_zero]
    exact mul_le_mul great below (by positivity) (abs_nonneg _)
  · rw [scaled, List.forall_mem_map]
    exact fun part member =>
      (near part member).1.abs_reading_le (onGrid_two_zpow (by omega)) (near part member).2

theorem Spans.normalize {vector : Vec3 Float32} {low high : ℤ} (spans : Spans vector low high)
    (finite : vector.lengthSquared.isFinite = true) (least : -20 ≤ low) (most : high ≤ 70) :
    Spans vector.normalize (low + -(high + 1)) (high + -low) ∧
      (reading vector.y = 0 → reading vector.normalize.y = 0) := by
  have ordered := spans.low_le_high
  obtain ⟨lengthFinite, lengthBelow, lengthAbove⟩ :=
    near_length spans finite (by omega) most
  obtain ⟨factorFinite, factorBelow, factorAbove⟩ :=
    near_inverse lengthFinite lengthBelow lengthAbove (by omega) (by omega)
  refine ⟨spans.scale factorFinite factorBelow factorAbove (by omega) (by omega), fun zero => ?_⟩
  exact (finite_mul_of_zero (spans.finite vector.y (.tail _ (.head _))) factorFinite (.inl zero)).2

/-! ## Horizontal vectors -/

/-- The cross product of the upward vector with a horizontal one is that vector, turned. -/
theorem cross_up_reads {vector : Vec3 Float32} (finite : ∀ part ∈ parts vector, part.isFinite = true)
    (horizontal : reading vector.y = 0) :
    (∀ part ∈ parts (Vec3.up.cross vector), part.isFinite = true) ∧
      (parts (Vec3.up.cross vector)).map reading = [reading vector.z, 0, -reading vector.x] := by
  simp only [parts, List.forall_mem_cons] at finite
  obtain ⟨xFinite, yFinite, zFinite, -⟩ := finite
  have zeroFinite : (0 : Float32).isFinite = true := by decide
  obtain ⟨zOneFinite, zOne⟩ := finite_one_mul zFinite
  obtain ⟨xOneFinite, xOne⟩ := finite_mul_one xFinite
  obtain ⟨yZeroFinite, yZero⟩ := finite_mul_of_zero yFinite zeroFinite (.inl horizontal)
  obtain ⟨zeroXFinite, zeroX⟩ := finite_mul_of_zero zeroFinite xFinite (.inl reading_zero)
  obtain ⟨zZeroFinite, zZero⟩ := finite_mul_of_zero zFinite zeroFinite (.inr reading_zero)
  obtain ⟨zeroYFinite, zeroY⟩ := finite_mul_of_zero zeroFinite yFinite (.inl reading_zero)
  obtain ⟨firstFinite, first⟩ := finite_sub_of_zero zOneFinite yZeroFinite yZero
  obtain ⟨secondFinite, second⟩ := finite_sub_of_zero zeroXFinite zZeroFinite zZero
  obtain ⟨thirdFinite, third⟩ := finite_zero_sub zeroYFinite xOneFinite zeroY
  have turned : parts (Vec3.up.cross vector) =
      [1 * vector.z - vector.y * 0, 0 * vector.x - vector.z * 0, 0 * vector.y - vector.x * 1] := rfl
  simp only [turned, List.forall_mem_cons, List.map_cons, List.map_nil, first, second, third, zOne,
    zeroX, xOne]
  exact ⟨⟨firstFinite, secondFinite, thirdFinite, nofun⟩, trivial⟩

theorem Spans.cross_up {vector : Vec3 Float32} {low high : ℤ} (spans : Spans vector low high)
    (horizontal : reading vector.y = 0) : Spans (Vec3.up.cross vector) low high := by
  obtain ⟨finite, reads⟩ := cross_up_reads spans.finite horizontal
  obtain ⟨-, least, most⟩ := spans
  simp only [parts, List.map_cons, List.map_nil, List.cons.injEq] at reads
  obtain ⟨first, second, third, -⟩ := reads
  simp only [parts, List.forall_mem_cons, List.exists_mem_cons_iff] at least most
  obtain ⟨xMost, -, zMost, -⟩ := most
  refine ⟨finite, ?_, ?_⟩ <;>
    simp only [parts, List.forall_mem_cons, List.exists_mem_cons_iff, first, second, third,
      abs_neg, abs_zero]
  · rcases least with great | great | great | ⟨_, member, -⟩
    · exact .inr (.inr (.inl great))
    · rw [horizontal, abs_zero] at great
      exact absurd great (not_le.mpr (zpow_pos two_pos low))
    · exact .inl great
    · cases member
  · exact ⟨zMost, (zpow_pos two_pos high).le, xMost, nofun⟩

end Grove.Single
