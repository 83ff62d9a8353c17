import Grove.Proofs.Single.Turns
import Grove.Geometry.Placement

/-!
# Which placements can be hit, in single precision

A placement can be hit when its determinant is not zero and its inverse is finite. In exact
arithmetic that is so for every placement of positive sizes. In single precision it depends on the
determinant, which is close to the product of the sizes: where that product comes down to the least
normal numbers, the determinant or its reciprocal is lost.
-/

set_option autoImplicit false

namespace Grove.Single

open Float.Model (UnpackedFloat)
open Float.Model.UnpackedFloat

/-! ## Results with a zero -/

/-- A minor with a zero in it is the product of the other two. -/
theorem finite_minor {value first second : Float32} (finite : value.isFinite = true)
    (firstFinite : first.isFinite = true) (secondFinite : second.isFinite = true)
    (zero : reading first = 0 ∨ reading second = 0) :
    (value * 1 - first * second).isFinite = true ∧
      reading (value * 1 - first * second) = reading value := by
  obtain ⟨oneFinite, one⟩ := finite_mul_one finite
  obtain ⟨productFinite, product⟩ := finite_mul_of_zero firstFinite secondFinite zero
  obtain ⟨allFinite, all⟩ := finite_sub_of_zero oneFinite productFinite product
  exact ⟨allFinite, all.trans one⟩

private theorem finite_mul_neg_one {value : Float32} (finite : value.isFinite = true) :
    (value * -1).isFinite = true ∧ reading (value * -1) = -reading value := by
  have rounds := rounds_mul finite (by decide : (-1 : Float32).isFinite = true)
  rw [reading_neg, reading_one, mul_neg_one] at rounds
  exact rounds.reading_eq (onGrid_reading value).neg (abs_neg (reading value) ▸ abs_reading_lt value)

private theorem close_cofactor {first second : ℤ} {a b c d : ℝ} {p q r s zero rest : Float32}
    (ofP : Close first a (1 / 2000) p) (ofQ : Close second b (1 / 2000) q)
    (ofR : Close first c (1 / 2000) r) (ofS : Close second d (1 / 2000) s)
    (zeroFinite : zero.isFinite = true) (isZero : reading zero = 0)
    (restFinite : rest.isFinite = true) (least : -127 ≤ first + second)
    (most : first + second < 126) :
    Close (first + second + 1) (a * b - c * d) (1 / 800) ((p * q - r * s) + zero * rest) := by
  have left := ofP.mul ofQ (1 / 900) (by norm_num) (by norm_num) least (by omega)
    (by norm_num)
  have right := ofR.mul ofS (1 / 900) (by norm_num) (by norm_num) least (by omega)
    (by norm_num)
  have difference := left.sub right (1 / 800) (by norm_num) (by omega) most (by norm_num)
  obtain ⟨productFinite, product⟩ := finite_mul_of_zero zeroFinite restFinite (.inl isZero)
  obtain ⟨finite, same⟩ := finite_add_of_zero difference.finite productFinite product
  exact difference.congr finite same

theorem Within.expand {first second : ℤ} {p f q g r h : Float32} (ofP : Within first p)
    (ofF : Within second f) (ofQ : Within first q) (ofG : Within second g) (ofR : Within first r)
    (ofH : Within second h) (least : -149 ≤ first + second) (most : first + second < 126) :
    Within (first + second + 2) ((p * f - q * g) + r * h) := by
  have difference := (ofP.mul ofF least (by omega)).sub (ofQ.mul ofG least (by omega)) (by omega)
    (by omega)
  have product := (ofR.mul ofH least (by omega)).mono (by omega : _ ≤ first + second + 1)
  exact (difference.add product (by omega) (by omega)).mono (by omega)

/-! ## Reciprocals -/

/-- The reciprocal of a number that is too small is not finite. -/
theorem not_finite_reciprocal {value : Float32} (finite : value.isFinite = true)
    (small : |reading value| ≤ 2 ^ (-128 : ℤ)) : (1 / value).isFinite = false := by
  rcases eq_or_ne (reading value) 0 with zero | nonzero
  · rcases finite_cases finite with ⟨sign, reads, -⟩ | ⟨_, _, _, _, reads, -, -⟩
    · change (encode (UnpackedFloat.div .binary32 (meaning 1) (meaning value))).isFinite = false
      rw [reads]
      cases sign <;> decide
    · exact absurd zero (reading_ne_zero reads)
  · rw [← Bool.not_eq_true]
    intro reciprocal
    have near := (rounds_div (by decide : (1 : Float32).isFinite = true) finite
      nonzero).near_of_finite reciprocal
    have great : (2 : ℝ) ^ (128 : ℤ) ≤ |reading 1 / reading value| := by
      rw [reading_one, abs_div, abs_one, le_div_iff₀ (abs_pos.mpr nonzero)]
      calc (2 : ℝ) ^ (128 : ℤ) * |reading value| ≤ 2 ^ (128 : ℤ) * 2 ^ (-128 : ℤ) :=
            mul_le_mul_of_nonneg_left small (by positivity)
        _ = 1 := by norm_num
    have beyond := near.le_abs_reading (onGrid_two_zpow (by norm_num)) great
    exact absurd (abs_reading_lt (1 / value)) (not_lt.mpr (by exact_mod_cast beyond))

/-- The reciprocal of a number near a volume that is not too small, or above it. -/
theorem within_reciprocal {value : Float32} {volume : ℝ} {power : ℤ}
    (finite : value.isFinite = true) (large : 2 ^ (-127 : ℤ) ≤ volume)
    (tight : 2 ^ power ≤ 8 * volume) (above : 3 / 4 * volume ≤ reading value)
    (most : power ≤ 150) : Within (4 - power) (1 / value) := by
  have volumePositive : 0 < volume := (zpow_pos two_pos _).trans_le large
  have positive : 0 < reading value := by linarith
  have bounded : |reading 1 / reading value| ≤ 4 / 3 / volume := by
    rw [reading_one, abs_of_pos (one_div_pos.mpr positive), div_div,
      div_le_div_iff₀ positive (by positivity)]
    linarith
  have grid : OnGrid (3 * 2 ^ (126 : ℤ)) := ⟨3, 126, by norm_num, by norm_num, by norm_num⟩
  have small : 4 / 3 / volume ≤ 3 * 2 ^ (126 : ℤ) := by
    rw [div_le_iff₀ volumePositive]
    norm_num at large ⊢
    linarith
  have near := (rounds_div (by decide : (1 : Float32).isFinite = true) finite positive.ne').near grid
    (bounded.trans small) (by norm_num)
  refine ⟨near.finite, near.abs_reading_le (onGrid_two_zpow (by omega)) (bounded.trans ?_)⟩
  rw [div_le_iff₀ volumePositive, zpow_sub₀ two_ne_zero, div_mul_eq_mul_div,
    le_div_iff₀ (zpow_pos two_pos _)]
  norm_num
  linarith

/-! ## Inverses by cofactors -/

/-- The minors of two rows, for the columns that stay when one of the first columns is struck
out. -/
def minors (zi zj wi wj yi yj : Float32) : Vec4 Float32 :=
  ⟨zi * wj - wi * zj, zi * wj - wi * zj, yi * wj - wi * yj, yi * zj - zi * yj⟩

/-- The transpose of the cofactors, up to their rounding. -/
def adjugate (matrix : Mat4 Float32) : Mat4 Float32 :=
  let x := matrix.xAxis
  let y := matrix.yAxis
  let z := matrix.zAxis
  let w := matrix.wAxis
  let f0 := minors z.z z.w w.z w.w y.z y.w
  let f1 := minors z.y z.w w.y w.w y.y y.w
  let f2 := minors z.y z.z w.y w.z y.y y.z
  let f3 := minors z.x z.w w.x w.w y.x y.w
  let f4 := minors z.x z.z w.x w.z y.x y.z
  let f5 := minors z.x z.y w.x w.y y.x y.y
  let v0 : Vec4 Float32 := ⟨y.x, x.x, x.x, x.x⟩
  let v1 : Vec4 Float32 := ⟨y.y, x.y, x.y, x.y⟩
  let v2 : Vec4 Float32 := ⟨y.z, x.z, x.z, x.z⟩
  let v3 : Vec4 Float32 := ⟨y.w, x.w, x.w, x.w⟩
  ⟨((v1 * f0 - v2 * f1) + v3 * f2) * (⟨1, -1, 1, -1⟩ : Vec4 Float32),
   ((v0 * f0 - v2 * f3) + v3 * f4) * (⟨-1, 1, -1, 1⟩ : Vec4 Float32),
   ((v0 * f1 - v1 * f3) + v3 * f5) * (⟨1, -1, 1, -1⟩ : Vec4 Float32),
   ((v0 * f2 - v1 * f4) + v2 * f5) * (⟨-1, 1, -1, 1⟩ : Vec4 Float32)⟩

/-- The determinant as the inverse finds it. -/
def divisor (matrix : Mat4 Float32) : Float32 :=
  let columns := adjugate matrix
  matrix.xAxis.dot ⟨columns.xAxis.x, columns.yAxis.x, columns.zAxis.x, columns.wAxis.x⟩

private theorem inverse_eq (matrix : Mat4 Float32) :
    matrix.inverse =
      let columns := adjugate matrix
      let factor := 1 / divisor matrix
      ⟨columns.xAxis * factor, columns.yAxis * factor, columns.zAxis * factor,
        columns.wAxis * factor⟩ :=
  rfl

/-- Powers of two that measure the columns of placements neither huge nor too thin. -/
structure InRange (across along : ℤ) : Prop where
  acrossBounds : -81 ≤ across ∧ across ≤ 31
  alongBounds : -45 ≤ along ∧ along ≤ 34
  volume : -127 ≤ 2 * across + along

/-- A column whose parts are bounded by powers of two of their own. -/
structure WithinAxis (x y z w : ℤ) (axis : Vec4 Float32) : Prop where
  x : Within x axis.x
  y : Within y axis.y
  z : Within z axis.z
  w : Within w axis.w

theorem WithinAxis.minors {across along : ℤ} {zi zj wi wj yi yj : Float32}
    (ofZi : Within (across + 1) zi) (ofZj : Within (across + 1) zj) (ofWi : Within 30 wi)
    (ofWj : Within 30 wj) (ofYi : Within (along + 1) yi) (ofYj : Within (along + 1) yj)
    (range : InRange across along) :
    WithinAxis (across + 32) (across + 32) (along + 32) (across + along + 3)
      (minors zi zj wi wj yi yj) := by
  obtain ⟨acrossRange, alongRange, -⟩ := range
  have repeated : Within (across + 32) (zi * wj - wi * zj) :=
    (ofZi.minor ofWj ofWi ofZj (by omega) (by omega)).mono (by omega)
  have shifted : Within (along + 32) (yi * wj - wi * yj) :=
    (ofYi.minor ofWj ofWi ofYj (by omega) (by omega)).mono (by omega)
  have spanned : Within (across + along + 3) (yi * zj - zi * yj) :=
    (ofYi.minor ofZj ofZi ofYj (by omega) (by omega)).mono (by omega)
  exact ⟨repeated, repeated, shifted, spanned⟩

/-- A column of the adjugate, from columns of entries and of minors. -/
theorem WithinAxis.expand {across along : ℤ} {p f q g r h signs : Vec4 Float32}
    (ofP : WithinAxis (along + 1) (across + 1) (across + 1) (across + 1) p)
    (ofF : WithinAxis (across + 32) (across + 32) (along + 32) (across + along + 3) f)
    (ofQ : WithinAxis (along + 1) (across + 1) (across + 1) (across + 1) q)
    (ofG : WithinAxis (across + 32) (across + 32) (along + 32) (across + along + 3) g)
    (ofR : WithinAxis (along + 1) (across + 1) (across + 1) (across + 1) r)
    (ofH : WithinAxis (across + 32) (across + 32) (along + 32) (across + along + 3) h)
    (ofSigns : WithinAxis 0 0 0 0 signs) (range : InRange across along) :
    WithinAxis (across + along + 35) (2 * across + 35) (across + along + 35)
      (2 * across + along + 6) (((p * f - q * g) + r * h) * signs) := by
  obtain ⟨acrossRange, alongRange, volumeRange⟩ := range
  constructor
  · exact ((Within.expand ofP.x ofF.x ofQ.x ofG.x ofR.x ofH.x (by omega) (by omega)).mul ofSigns.x
      (by omega) (by omega)).mono (by omega)
  · exact ((Within.expand ofP.y ofF.y ofQ.y ofG.y ofR.y ofH.y (by omega) (by omega)).mul ofSigns.y
      (by omega) (by omega)).mono (by omega)
  · exact ((Within.expand ofP.z ofF.z ofQ.z ofG.z ofR.z ofH.z (by omega) (by omega)).mul ofSigns.z
      (by omega) (by omega)).mono (by omega)
  · exact ((Within.expand ofP.w ofF.w ofQ.w ofG.w ofR.w ofH.w (by omega) (by omega)).mul ofSigns.w
      (by omega) (by omega)).mono (by omega)

private theorem withinAxis_signs :
    WithinAxis 0 0 0 0 (⟨1, -1, 1, -1⟩ : Vec4 Float32) ∧
      WithinAxis 0 0 0 0 (⟨-1, 1, -1, 1⟩ : Vec4 Float32) :=
  ⟨⟨within_one, within_one.neg, within_one, within_one.neg⟩,
    ⟨within_one.neg, within_one, within_one.neg, within_one⟩⟩

/-! ## Close placements -/

/-- A placement that is close to one of exact arithmetic. Its first and third columns are measured by
one power of two and its second one by another. -/
structure ClosePlacement (across along : ℤ) (exact : Mat4 ℝ) (placement : Mat4 Float32) :
    Prop where
  x : CloseAxis across exact.xAxis (1 / 2000) placement.xAxis
  y : CloseAxis along exact.yAxis (1 / 2000) placement.yAxis
  z : CloseAxis across exact.zAxis (1 / 2000) placement.zAxis
  offset : Within 30 placement.wAxis.x ∧ Within 30 placement.wAxis.y ∧ Within 30 placement.wAxis.z
  last : placement.wAxis.w = 1
  range : InRange across along

theorem CloseAxis.within {exponent : ℤ} {exact : Vec4 ℝ} {axis : Vec4 Float32}
    (close : CloseAxis exponent exact (1 / 2000) axis) :
    Within (exponent + 1) axis.x ∧ Within (exponent + 1) axis.y ∧ Within (exponent + 1) axis.z ∧
      Within (exponent + 1) axis.w :=
  ⟨close.x.within (by norm_num), close.y.within (by norm_num), close.z.within (by norm_num),
    .of_reading_eq_zero close.finite close.flat⟩

namespace ClosePlacement

variable {across along : ℤ} {exact : Mat4 ℝ} {placement : Mat4 Float32}

/-- The volume spanned by the columns, from cofactors that are close to those of exact arithmetic. -/
theorem dot (close : ClosePlacement across along exact placement) {p q r s : Float32}
    (first : Close (along + across + 1)
      (exact.yAxis.y * exact.zAxis.z - exact.yAxis.z * exact.zAxis.y) (1 / 800) p)
    (second : Close (along + across + 1)
      (-(exact.yAxis.x * exact.zAxis.z - exact.yAxis.z * exact.zAxis.x)) (1 / 800) q)
    (third : Close (along + across + 1)
      (exact.yAxis.x * exact.zAxis.y - exact.yAxis.y * exact.zAxis.x) (1 / 800) r)
    (fourth : s.isFinite = true) :
    (placement.xAxis.dot ⟨p, q, r, s⟩).isFinite = true ∧
      |reading (placement.xAxis.dot ⟨p, q, r, s⟩) - exact.volume| ≤
        2 ^ (-5 : ℤ) * 2 ^ (2 * across + along) := by
  obtain ⟨acrossRange, alongRange, volumeRange⟩ := close.range
  have x := close.x.x.mul first (1 / 560) (by norm_num) (by norm_num) (by omega) (by omega)
    (by norm_num)
  have y := close.x.y.mul second (1 / 560) (by norm_num) (by norm_num) (by omega)
    (by omega) (by norm_num)
  have z := close.x.z.mul third (1 / 560) (by norm_num) (by norm_num) (by omega) (by omega)
    (by norm_num)
  obtain ⟨flatFinite, flat⟩ := finite_mul_of_zero close.x.finite fourth (.inl close.x.flat)
  obtain ⟨otherFinite, other⟩ := finite_add_of_zero y.finite flatFinite flat
  have pair := x.add z (1 / 550) (by norm_num) (by omega) (by omega) (by norm_num)
  have single := (y.congr otherFinite other).raise (by norm_num)
    (by omega : across + (along + across + 1) ≤ across + (along + across + 1) + 1)
  have sum := pair.add (single.mono (by norm_num : (1 / 560 : ℝ) ≤ 1 / 550)) (1 / 540)
    (by norm_num) (by omega) (by omega) (by norm_num)
  have volume : exact.volume =
      exact.xAxis.x * (exact.yAxis.y * exact.zAxis.z - exact.yAxis.z * exact.zAxis.y) +
        exact.xAxis.z * (exact.yAxis.x * exact.zAxis.y - exact.yAxis.y * exact.zAxis.x) +
          exact.xAxis.y * -(exact.yAxis.x * exact.zAxis.z - exact.yAxis.z * exact.zAxis.x) := by
    simp only [Mat4.volume, Vec3.dot, Vec3.cross, Vec4.truncate]
    ring
  refine ⟨sum.finite, ?_⟩
  rw [volume]
  refine sum.error.trans ?_
  have power : (2 : ℝ) ^ (across + (along + across + 1) + 1 + 1) = 8 * 2 ^ (2 * across + along) := by
    rw [(by ring : across + (along + across + 1) + 1 + 1 = 3 + (2 * across + along)),
      zpow_add₀ two_ne_zero]
    norm_num
  have unit : (0 : ℝ) < 2 ^ (2 * across + along) := zpow_pos two_pos _
  rw [power]
  norm_num
  linarith

/-- The cofactors of the first column, from what is left of the minors of the last two columns where
the third one ends with zero. -/
theorem cofactors (close : ClosePlacement across along exact placement) {a b c d e f : Float32}
    (ofA : Close across exact.zAxis.z (1 / 2000) a) (ofB : Close across exact.zAxis.y (1 / 2000) b)
    (ofD : Close across exact.zAxis.x (1 / 2000) d) (ofC : c.isFinite = true)
    (ofE : e.isFinite = true) (ofF : f.isFinite = true) :
    Close (along + across + 1) (exact.yAxis.y * exact.zAxis.z - exact.yAxis.z * exact.zAxis.y)
        (1 / 800) ((placement.yAxis.y * a - placement.yAxis.z * b) + placement.yAxis.w * c) ∧
      Close (along + across + 1) (exact.yAxis.x * exact.zAxis.z - exact.yAxis.z * exact.zAxis.x)
        (1 / 800) ((placement.yAxis.x * a - placement.yAxis.z * d) + placement.yAxis.w * e) ∧
      Close (along + across + 1) (exact.yAxis.x * exact.zAxis.y - exact.yAxis.y * exact.zAxis.x)
        (1 / 800) ((placement.yAxis.x * b - placement.yAxis.y * d) + placement.yAxis.w * f) := by
  obtain ⟨acrossRange, alongRange, volumeRange⟩ := close.range
  obtain ⟨x, y, z, finite, flat⟩ := close.y
  exact ⟨close_cofactor y ofA z ofB finite flat ofC (by omega) (by omega),
    close_cofactor x ofA z ofD finite flat ofE (by omega) (by omega),
    close_cofactor x ofB y ofD finite flat ofF (by omega) (by omega)⟩

private theorem determinant (close : ClosePlacement across along exact placement) :
    placement.determinant.isFinite = true ∧
      |reading placement.determinant - exact.volume| ≤
        2 ^ (-5 : ℤ) * 2 ^ (2 * across + along) := by
  obtain ⟨acrossRange, alongRange, volumeRange⟩ := close.range
  obtain ⟨yx, yy, yz, -⟩ := close.y.within
  obtain ⟨zx, zy, zz, zw⟩ := close.z.within
  obtain ⟨wx, wy, wz⟩ := close.offset
  have kept : ∀ {value shift : Float32} {part : ℝ}, Close across part (1 / 2000) value →
      Within 30 shift → Close across part (1 / 2000)
        (value * placement.wAxis.w - placement.zAxis.w * shift) := by
    intro value shift part own within
    rw [close.last]
    obtain ⟨finite, same⟩ := finite_minor own.finite zw.finite within.finite (.inl close.z.flat)
    exact own.congr finite same
  have shifted : ∀ {first second third fourth : Float32}, Within (across + 1) first →
      Within 30 second → Within (across + 1) third → Within 30 fourth →
      Within (across + 32) (first * second - third * fourth) := fun a b c d =>
    ((a.mul b (by omega) (by omega)).sub (c.mul d (by omega) (by omega)) (by omega)
      (by omega)).mono (by omega)
  have minorC := shifted zy wz zz wy
  have minorE := shifted zx wz zz wx
  have minorF := shifted zx wy zy wx
  obtain ⟨first, second, third⟩ := close.cofactors (kept close.z.z wz) (kept close.z.y wy)
    (kept close.z.x wx) minorC.finite minorE.finite minorF.finite
  exact close.dot first second.neg third
    (Within.expand yx minorC yy minorE yz minorF (by omega) (by omega)).neg.finite

private theorem within_adjugate (close : ClosePlacement across along exact placement) :
    ∀ column ∈ [(adjugate placement).xAxis, (adjugate placement).yAxis,
        (adjugate placement).zAxis, (adjugate placement).wAxis],
      WithinAxis (across + along + 35) (2 * across + 35) (across + along + 35)
        (2 * across + along + 6) column := by
  obtain ⟨xx, xy, xz, xw⟩ := close.x.within
  obtain ⟨yx, yy, yz, yw⟩ := close.y.within
  obtain ⟨zx, zy, zz, zw⟩ := close.z.within
  obtain ⟨wx, wy, wz⟩ := close.offset
  have ww : Within 30 placement.wAxis.w := close.last ▸ within_one.mono (by norm_num)
  have minors {zi zj wi wj yi yj : Float32} (ofZi : Within (across + 1) zi)
      (ofZj : Within (across + 1) zj) (ofWi : Within 30 wi) (ofWj : Within 30 wj)
      (ofYi : Within (along + 1) yi) (ofYj : Within (along + 1) yj) :=
    WithinAxis.minors ofZi ofZj ofWi ofWj ofYi ofYj close.range
  have f0 := minors zz zw wz ww yz yw
  have f1 := minors zy zw wy ww yy yw
  have f2 := minors zy zz wy wz yy yz
  have f3 := minors zx zw wx ww yx yw
  have f4 := minors zx zz wx wz yx yz
  have f5 := minors zx zy wx wy yx yy
  have rows {p q : Float32} (ofP : Within (along + 1) p) (ofQ : Within (across + 1) q) :
      WithinAxis (along + 1) (across + 1) (across + 1) (across + 1) ⟨p, q, q, q⟩ :=
    ⟨ofP, ofQ, ofQ, ofQ⟩
  have v0 := rows yx xx
  have v1 := rows yy xy
  have v2 := rows yz xz
  have v3 := rows yw xw
  obtain ⟨even, odd⟩ := withinAxis_signs
  simp only [List.forall_mem_cons]
  refine ⟨?_, ?_, ?_, ?_, nofun⟩
  · exact .expand v1 f0 v2 f1 v3 f2 even close.range
  · exact .expand v0 f0 v2 f3 v3 f4 odd close.range
  · exact .expand v0 f1 v1 f3 v3 f5 even close.range
  · exact .expand v0 f2 v1 f4 v2 f5 odd close.range

private theorem divisor (close : ClosePlacement across along exact placement) :
    (divisor placement).isFinite = true ∧
      |reading (divisor placement) - exact.volume| ≤ 2 ^ (-5 : ℤ) * 2 ^ (2 * across + along) := by
  obtain ⟨acrossRange, alongRange, volumeRange⟩ := close.range
  obtain ⟨zx, zy, zz, zw⟩ := close.z.within
  obtain ⟨wx, wy, wz⟩ := close.offset
  have kept : ∀ {value shift : Float32} {part : ℝ}, Close across part (1 / 2000) value →
      Within 30 shift → Close across part (1 / 2000)
        (value * placement.wAxis.w - shift * placement.zAxis.w) := by
    intro value shift part own within
    rw [close.last]
    obtain ⟨finite, same⟩ := finite_minor own.finite within.finite zw.finite (.inr close.z.flat)
    exact own.congr finite same
  have shifted : ∀ {first second third fourth : Float32}, Within (across + 1) first →
      Within 30 second → Within 30 third → Within (across + 1) fourth →
      (first * second - third * fourth).isFinite = true := fun a b c d =>
    (a.minor b c d (by omega) (by omega)).finite
  obtain ⟨first, second, third⟩ := close.cofactors (kept close.z.z wz) (kept close.z.y wy)
    (kept close.z.x wx) (shifted zy wz wy zz) (shifted zx wz wx zz) (shifted zx wy wx zy)
  have columns := close.within_adjugate
  simp only [List.forall_mem_cons] at columns
  obtain ⟨firstFinite, firstSame⟩ := finite_mul_one first.finite
  obtain ⟨secondFinite, secondSame⟩ := finite_mul_neg_one second.finite
  obtain ⟨thirdFinite, thirdSame⟩ := finite_mul_one third.finite
  exact close.dot (first.congr firstFinite firstSame)
    (second.neg.congr secondFinite (secondSame.trans (reading_neg _).symm))
    (third.congr thirdFinite thirdSame) columns.2.2.2.1.x.finite

/-! ## Rays in the coordinates of a placement -/

/-- The inverse of a placement that is not too thin is finite. -/
theorem inverse_isFinite (close : ClosePlacement across along exact placement)
    (factor : Within (4 - (2 * across + along)) (1 / Single.divisor placement)) :
    placement.inverse.isFinite = true := by
  obtain ⟨acrossRange, alongRange, volumeRange⟩ := close.range
  have scaled : ∀ {column : Vec4 Float32}, WithinAxis (across + along + 35) (2 * across + 35)
      (across + along + 35) (2 * across + along + 6) column →
      (column * (1 / Single.divisor placement)).isFinite = true := by
    intro column within
    have x := (within.x.mul factor (by omega) (by omega)).finite
    have y := (within.y.mul factor (by omega) (by omega)).finite
    have z := (within.z.mul factor (by omega) (by omega)).finite
    have w := (within.w.mul factor (by omega) (by omega)).finite
    exact Bool.and_eq_true_iff.mpr ⟨Bool.and_eq_true_iff.mpr ⟨Bool.and_eq_true_iff.mpr
      ⟨x, y⟩, z⟩, w⟩
  have columns := close.within_adjugate
  simp only [List.forall_mem_cons] at columns
  rw [inverse_eq]
  simp only [Mat4.isFinite, Bool.and_eq_true]
  exact ⟨⟨⟨scaled columns.1, scaled columns.2.1⟩, scaled columns.2.2.1⟩, scaled columns.2.2.2.1⟩

theorem isSome_toLocal? (close : ClosePlacement across along exact placement)
    (large : 2 ^ (-127 : ℤ) ≤ exact.volume)
    (tight : 2 ^ (2 * across + along) ≤ 8 * exact.volume) (ray : Ray Float32) :
    (ray.toLocal? placement).isSome = true := by
  obtain ⟨acrossRange, alongRange, volumeRange⟩ := close.range
  obtain ⟨determinantFinite, determinantError⟩ := close.determinant
  obtain ⟨divisorFinite, divisorError⟩ := close.divisor
  have positive : 0 < exact.volume := (zpow_pos two_pos _).trans_le large
  have apart : ∀ {value : ℝ}, |value - exact.volume| ≤ 2 ^ (-5 : ℤ) * 2 ^ (2 * across + along) →
      3 / 4 * exact.volume ≤ value := by
    intro value error
    have lower := (abs_le.mp error).1
    norm_num at lower
    linarith
  have regular : (placement.determinant == 0) = false := by
    rw [← Bool.not_eq_true, beq_zero_iff determinantFinite]
    have above := apart determinantError
    intro zero
    linarith
  have inverse := close.inverse_isFinite
    (within_reciprocal divisorFinite large tight (apart divisorError) (by omega))
  rw [Ray.toLocal?, regular, if_neg Bool.false_ne_true]
  simp only [inverse, if_true, Option.isSome_some]

theorem toLocal?_eq_none (close : ClosePlacement across along exact placement)
    (small : |exact.volume| ≤ 2 ^ (-129 : ℤ)) (tight : 2 * across + along ≤ -126)
    (ray : Ray Float32) : ray.toLocal? placement = none := by
  obtain ⟨divisorFinite, divisorError⟩ := close.divisor
  have power : (2 : ℝ) ^ (2 * across + along) ≤ 2 ^ (-126 : ℤ) :=
    zpow_le_zpow_right₀ one_le_two tight
  have tiny : |reading (Single.divisor placement)| ≤ 2 ^ (-128 : ℤ) := by
    rw [abs_le] at *
    norm_num at *
    constructor <;> linarith
  have infinite := not_finite_reciprocal divisorFinite tiny
  have inverse : placement.inverse.isFinite = false := by
    rw [← Bool.not_eq_true, inverse_eq]
    simp only [Mat4.isFinite, Vec4.isFinite, Bool.and_eq_true]
    rintro ⟨⟨⟨⟨⟨⟨x, -⟩, -⟩, -⟩, -⟩, -⟩, -⟩
    have factor := (finite_of_mul x).2
    rw [infinite] at factor
    cases factor
  unfold Ray.toLocal?
  split
  · rfl
  · dsimp only
    rw [inverse, if_neg Bool.false_ne_true]

end ClosePlacement

end Grove.Single
