import Grove.Proofs.Linear.Rotation
import Grove.Proofs.Single.Error
import Grove.Proofs.Single.Lengths

/-!
# Rotations in single precision

The shortest rotation from the upward direction is close to a quaternion of length one, whatever the
direction it is asked for: scaling to length one only needs a quaternion that is not too short, and
directions too close to the opposite one are taken care of apart. So the axes it turns to are close
to three axes at right angles.
-/

set_option autoImplicit false

namespace Grove.Single

open Float.Model.UnpackedFloat

theorem within_one : Within 0 (1 : Float32) :=
  ⟨by decide, by rw [reading_one]; norm_num⟩

theorem Within.zero_mul {exponent : ℤ} {value : Float32} (finite : value.isFinite = true) :
    Within exponent (0 * value) :=
  have product := finite_mul_of_zero (by decide : (0 : Float32).isFinite = true) finite
    (.inl reading_zero)
  .of_reading_eq_zero product.1 product.2

theorem Within.mul_zero {exponent : ℤ} {value : Float32} (finite : value.isFinite = true) :
    Within exponent (value * 0) :=
  have product := finite_mul_of_zero finite (by decide : (0 : Float32).isFinite = true)
    (.inr reading_zero)
  .of_reading_eq_zero product.1 product.2

/-! ## Close rotations -/

/-- A quaternion close to one of exact arithmetic, part by part. -/
structure CloseTurn (exact : Quat ℝ) (turn : Quat Float32) : Prop where
  x : Close 0 exact.x (2 ^ (-17 : ℤ)) turn.x
  y : Close 0 exact.y (2 ^ (-17 : ℤ)) turn.y
  z : Close 0 exact.z (2 ^ (-17 : ℤ)) turn.z
  w : Close 0 exact.w (2 ^ (-17 : ℤ)) turn.w

/-- A column whose first parts are close to those of one of exact arithmetic and whose last part is
zero. -/
structure CloseAxis (exponent : ℤ) (exact : Vec4 ℝ) (error : ℝ) (axis : Vec4 Float32) : Prop where
  x : Close exponent exact.x error axis.x
  y : Close exponent exact.y error axis.y
  z : Close exponent exact.z error axis.z
  finite : axis.w.isFinite = true
  flat : reading axis.w = 0

section Entries

variable {exact other : ℝ} {value otherValue : Float32}

theorem close_twice_product (first : Close 0 exact (2 ^ (-17 : ℤ)) value)
    (second : Close 0 other (2 ^ (-17 : ℤ)) otherValue) :
    Close 1 (exact * (other + other)) (2 ^ (-15 : ℤ)) (value * (otherValue + otherValue)) := by
  have doubled : Close (0 + 1) (other + other) (2 ^ (-16 : ℤ)) (otherValue + otherValue) :=
    second.add second _ (by norm_num) (by norm_num) (by norm_num) (by norm_num)
  exact first.mul doubled _ (by norm_num) (by norm_num) (by norm_num) (by norm_num) (by norm_num)

theorem close_entry_add (first : Close 1 exact (2 ^ (-15 : ℤ)) value)
    (second : Close 1 other (2 ^ (-15 : ℤ)) otherValue) (bounded : |exact + other| ≤ 1) :
    Close 0 (exact + other) (2 ^ (-11 : ℤ)) (value + otherValue) := by
  have sum : Close (1 + 1) (exact + other) (2 ^ (-14 : ℤ)) (value + otherValue) :=
    first.add second _ (by norm_num) (by norm_num) (by norm_num) (by norm_num)
  exact sum.lower (by rwa [zpow_zero]) (by norm_num)

theorem close_entry_sub (first : Close 1 exact (2 ^ (-15 : ℤ)) value)
    (second : Close 1 other (2 ^ (-15 : ℤ)) otherValue) (bounded : |exact - other| ≤ 1) :
    Close 0 (exact - other) (2 ^ (-11 : ℤ)) (value - otherValue) := by
  have difference : Close (1 + 1) (exact - other) (2 ^ (-14 : ℤ)) (value - otherValue) :=
    first.sub second _ (by norm_num) (by norm_num) (by norm_num) (by norm_num)
  exact difference.lower (by rwa [zpow_zero]) (by norm_num)

theorem close_entry_diagonal (first : Close 1 exact (2 ^ (-15 : ℤ)) value)
    (second : Close 1 other (2 ^ (-15 : ℤ)) otherValue) (bounded : |1 - (exact + other)| ≤ 1) :
    Close 0 (1 - (exact + other)) (2 ^ (-11 : ℤ)) (1 - (value + otherValue)) := by
  have one : Close 2 1 0 (1 : Float32) :=
    ⟨by decide, by norm_num, by rw [reading_one]; norm_num⟩
  have sum : Close 2 (exact + other) (2 ^ (-14 : ℤ)) (value + otherValue) :=
    first.add second _ (by norm_num) (by norm_num) (by norm_num) (by norm_num)
  have difference : Close (2 + 1) (1 - (exact + other)) (2 ^ (-14 : ℤ)) (1 - (value + otherValue)) :=
    one.sub sum _ (by norm_num) (by norm_num) (by norm_num) (by norm_num)
  exact difference.lower (by rwa [zpow_zero]) (by norm_num)

end Entries

theorem closeAxis_of_zero {exact : Vec4 ℝ} {x y z : Float32}
    (first : Close 0 exact.x (2 ^ (-11 : ℤ)) x) (second : Close 0 exact.y (2 ^ (-11 : ℤ)) y)
    (third : Close 0 exact.z (2 ^ (-11 : ℤ)) z) :
    CloseAxis 0 exact (2 ^ (-11 : ℤ)) ⟨x, y, z, 0⟩ :=
  ⟨first, second, third, (by decide : (0 : Float32).isFinite = true), reading_zero⟩

/-- The entries of a rotation by a quaternion of length one are at most one. -/
theorem abs_entries_le (p q r s : ℝ) (unit : p * p + q * q + r * r + s * s = 1) :
    |p * (q + q) + r * (s + s)| ≤ 1 ∧ |p * (q + q) - r * (s + s)| ≤ 1 ∧
      |1 - (p * (p + p) + q * (q + q))| ≤ 1 := by
  have product : ∀ a b : ℝ, |a * (b + b)| ≤ a * a + b * b := by
    intro a b
    have sum := mul_self_nonneg (a + b)
    have difference := mul_self_nonneg (a - b)
    rw [abs_le]
    constructor <;> linarith
  have first := product p q
  have second := product r s
  refine ⟨(abs_add_le _ _).trans (by linarith), (abs_sub _ _).trans (by linarith), ?_⟩
  have := mul_self_nonneg p
  have := mul_self_nonneg q
  have := mul_self_nonneg r
  have := mul_self_nonneg s
  rw [abs_le]
  constructor <;> linarith

/-- A rotation by a quaternion close to one of length one turns the axes to columns close to three
axes at right angles. -/
theorem CloseTurn.rotation {exact : Quat ℝ} {turn : Quat Float32} (close : CloseTurn exact turn)
    (unit : exact.lengthSquared = 1) :
    CloseAxis 0 (Mat4.rotation exact).xAxis (2 ^ (-11 : ℤ)) (Mat4.rotation turn).xAxis ∧
      CloseAxis 0 (Mat4.rotation exact).yAxis (2 ^ (-11 : ℤ)) (Mat4.rotation turn).yAxis ∧
      CloseAxis 0 (Mat4.rotation exact).zAxis (2 ^ (-11 : ℤ)) (Mat4.rotation turn).zAxis := by
  obtain ⟨x, y, z, w⟩ := close
  have xx := close_twice_product x x
  have xy := close_twice_product x y
  have xz := close_twice_product x z
  have yy := close_twice_product y y
  have yz := close_twice_product y z
  have zz := close_twice_product z z
  have wx := close_twice_product w x
  have wy := close_twice_product w y
  have wz := close_twice_product w z
  obtain ⟨a, b, c, d⟩ := exact
  simp only [Quat.lengthSquared] at unit
  refine ⟨closeAxis_of_zero ?_ ?_ ?_, closeAxis_of_zero ?_ ?_ ?_, closeAxis_of_zero ?_ ?_ ?_⟩
  · exact close_entry_diagonal yy zz (abs_entries_le b c a d (by linarith)).2.2
  · exact close_entry_add xy wz (abs_entries_le a b d c (by linarith)).1
  · exact close_entry_sub xz wy (abs_entries_le a c d b (by linarith)).2.1
  · exact close_entry_sub xy wz (abs_entries_le a b d c (by linarith)).2.1
  · exact close_entry_diagonal xx zz (abs_entries_le a c b d (by linarith)).2.2
  · exact close_entry_add yz wx (abs_entries_le b c d a (by linarith)).1
  · exact close_entry_add xz wy (abs_entries_le a c d b (by linarith)).1
  · exact close_entry_sub yz wx (abs_entries_le b c d a (by linarith)).2.1
  · exact close_entry_diagonal xx yy (abs_entries_le a b c d (by linarith)).2.2

theorem closeTurn_identity : CloseTurn .identity .identity := by
  have zero : Close 0 0 (2 ^ (-17 : ℤ)) (0 : Float32) :=
    ⟨by decide, by norm_num, by rw [reading_zero]; norm_num⟩
  have one : Close 0 1 (2 ^ (-17 : ℤ)) (1 : Float32) :=
    ⟨by decide, by norm_num, by rw [reading_one]; norm_num⟩
  exact ⟨zero, zero, zero, one⟩

/-! ## Scaling to length one -/

/-- The quaternion of the real numbers read. -/
noncomputable def exactTurn (turn : Quat Float32) : Quat ℝ :=
  ⟨reading turn.x, reading turn.y, reading turn.z, reading turn.w⟩

/-- The square of a length is off by a part in `2 ^ 20`, as long as it is not too small. -/
theorem lengthSquared_error {turn : Quat Float32} (finite : turn.lengthSquared.isFinite = true)
    (long : 2 ^ (-44 : ℤ) ≤ (exactTurn turn).lengthSquared) :
    |reading turn.lengthSquared - (exactTurn turn).lengthSquared| ≤
      2 ^ (-20 : ℤ) * (exactTurn turn).lengthSquared := by
  obtain ⟨pairFinite, otherFinite⟩ := finite_of_add finite
  obtain ⟨xFinite, zFinite⟩ := finite_of_add pairFinite
  obtain ⟨yFinite, wFinite⟩ := finite_of_add otherFinite
  have squareError : ∀ {value : Float32}, (value * value).isFinite = true →
      0 ≤ reading (value * value) ∧ |reading (value * value) - reading value * reading value| ≤
        2 ^ (-23 : ℤ) * (reading value * reading value) + 2 ^ (-149 : ℤ) := by
    intro value own
    have near := near_square own
    rw [sq] at near
    have nonneg := mul_self_nonneg (reading value)
    exact ⟨near.least 0 onGrid_zero nonneg, by simpa only [abs_of_nonneg nonneg] using near.error⟩
  have sumError : ∀ {left right : Float32}, (left + right).isFinite = true → 0 ≤ reading left →
      0 ≤ reading right → 0 ≤ reading (left + right) ∧
        |reading (left + right) - (reading left + reading right)| ≤
          2 ^ (-23 : ℤ) * (reading left + reading right) + 2 ^ (-149 : ℤ) := by
    intro left right own first second
    have near := near_sum own
    have nonneg := add_nonneg first second
    exact ⟨near.least 0 onGrid_zero nonneg, by simpa only [abs_of_nonneg nonneg] using near.error⟩
  obtain ⟨xNonneg, xError⟩ := squareError xFinite
  obtain ⟨yNonneg, yError⟩ := squareError yFinite
  obtain ⟨zNonneg, zError⟩ := squareError zFinite
  obtain ⟨wNonneg, wError⟩ := squareError wFinite
  obtain ⟨pairNonneg, pairError⟩ := sumError pairFinite xNonneg zNonneg
  obtain ⟨otherNonneg, otherError⟩ := sumError otherFinite yNonneg wNonneg
  obtain ⟨-, error⟩ := sumError finite pairNonneg otherNonneg
  have exactly : (exactTurn turn).lengthSquared = reading turn.x * reading turn.x +
      reading turn.z * reading turn.z + (reading turn.y * reading turn.y +
        reading turn.w * reading turn.w) := rfl
  have float : turn.lengthSquared = turn.x * turn.x + turn.z * turn.z +
      (turn.y * turn.y + turn.w * turn.w) := rfl
  rw [← float] at error
  rw [abs_le] at *
  norm_num at *
  constructor <;> linarith

theorem sqrt_error {square exact loss : ℝ} (nonneg : 0 ≤ exact) (positive : 0 ≤ loss)
    (small : loss ≤ 1) (apart : |square - exact ^ 2| ≤ loss * exact ^ 2) :
    |√square - exact| ≤ loss * exact := by
  obtain ⟨lower, upper⟩ := abs_le.mp apart
  have gain : 0 ≤ loss * exact ^ 2 := by positivity
  have more : 0 ≤ loss * (loss * exact ^ 2) := by positivity
  have less : loss * (loss * exact ^ 2) ≤ loss * exact ^ 2 := mul_le_of_le_one_left gain small
  have above : √square ≤ (1 + loss) * exact :=
    Real.sqrt_le_iff.mpr ⟨by positivity, by nlinarith⟩
  have below : (1 - loss) * exact ≤ √square := Real.le_sqrt_of_sq_le (by nlinarith)
  rw [abs_le]
  constructor <;> linarith

/-- A length is off by a part in `2 ^ 19`. -/
theorem length_error {square : Float32} {exact : ℝ} (finite : square.isFinite = true)
    (nonneg : 0 ≤ reading square) (least : 2 ^ (-22 : ℤ) ≤ exact) (most : exact ≤ 2 ^ (5 : ℤ))
    (apart : |reading square - exact ^ 2| ≤ 2 ^ (-20 : ℤ) * exact ^ 2) :
    (Scalar.sqrt square).isFinite = true ∧
      |reading (Scalar.sqrt square) - exact| ≤ 2 ^ (-19 : ℤ) * exact := by
  have positive : 0 ≤ exact := (zpow_pos two_pos _).le.trans least
  have root := sqrt_error positive (by norm_num) (by norm_num) apart
  obtain ⟨lower, upper⟩ := abs_le.mp root
  have below : |√(reading square)| ≤ 2 ^ (6 : ℤ) := by
    rw [abs_of_nonneg (Real.sqrt_nonneg _)]
    norm_num at *
    linarith
  have near : Near √(reading square) (Scalar.sqrt square) :=
    (rounds_sqrt finite nonneg).near_two_zpow below (by norm_num) (by norm_num)
  have error := near.error
  rw [abs_of_nonneg (Real.sqrt_nonneg _)] at error
  refine ⟨near.finite, ?_⟩
  rw [abs_le] at *
  norm_num at *
  constructor <;> linarith

/-- A part of a quaternion, divided by a length that is slightly off. -/
theorem close_div_length {part length : Float32} {exact : ℝ} (finite : part.isFinite = true)
    (lengthFinite : length.isFinite = true) (positive : 0 < exact)
    (bounded : |reading part| ≤ exact)
    (apart : |reading length - exact| ≤ 2 ^ (-19 : ℤ) * exact) :
    Close 0 (reading part / exact) (2 ^ (-17 : ℤ)) (part / length) := by
  obtain ⟨lower, upper⟩ := abs_le.mp apart
  have half : exact / 2 ≤ reading length := by
    norm_num at lower
    linarith
  have long : 0 < reading length := by linarith
  have quotient : |reading part / exact| ≤ 1 := by
    rw [abs_div, abs_of_pos positive]
    exact (div_le_one positive).mpr bounded
  have split : reading part / reading length - reading part / exact =
      reading part / exact * ((exact - reading length) / reading length) := by
    field_simp
  have error : |reading part / reading length - reading part / exact| ≤
      2 ^ (-18 : ℤ) * 2 ^ (0 : ℤ) := by
    rw [split, abs_mul, abs_div _ (reading length), abs_of_pos long, abs_sub_comm]
    have share : |reading length - exact| / reading length ≤ 2 ^ (-18 : ℤ) := by
      rw [div_le_iff₀ long]
      norm_num at apart ⊢
      linarith
    calc |reading part / exact| * (|reading length - exact| / reading length)
        ≤ 1 * 2 ^ (-18 : ℤ) := mul_le_mul quotient share (by positivity) zero_le_one
      _ = 2 ^ (-18 : ℤ) * 2 ^ (0 : ℤ) := by norm_num
  exact .of_rounds (rounds_div finite lengthFinite long.ne') (by rwa [zpow_zero]) error
    (by norm_num) (by norm_num) (by norm_num) (by norm_num)

theorem part_le_lengthSquared (turn : Quat Float32) :
    ∀ part ∈ [turn.x, turn.y, turn.z, turn.w],
      reading part ^ 2 ≤ (exactTurn turn).lengthSquared := by
  have := mul_self_nonneg (reading turn.x)
  have := mul_self_nonneg (reading turn.y)
  have := mul_self_nonneg (reading turn.z)
  have := mul_self_nonneg (reading turn.w)
  simp only [List.forall_mem_cons, exactTurn, Quat.lengthSquared, sq]
  exact ⟨by linarith, by linarith, by linarith, by linarith, List.forall_mem_nil _⟩

/-- Squares of parts up to `2 ^ 4` do not overflow, and their sum is below `2 ^ 10`. -/
theorem lengthSquared_within {turn : Quat Float32} (x : Within 4 turn.x) (y : Within 4 turn.y)
    (z : Within 4 turn.z) (w : Within 4 turn.w) :
    Within 10 turn.lengthSquared ∧ (exactTurn turn).lengthSquared ≤ 2 ^ (10 : ℤ) := by
  have pair := (x.mul x (by norm_num) (by norm_num)).add (z.mul z (by norm_num) (by norm_num))
    (by norm_num) (by norm_num)
  have other := (y.mul y (by norm_num) (by norm_num)).add (w.mul w (by norm_num) (by norm_num))
    (by norm_num) (by norm_num)
  have sides : ∀ {part : Float32}, Within 4 part → reading part ^ 2 ≤ 2 ^ (8 : ℤ) :=
    fun within => square_le within.most
  have := sides x
  have := sides y
  have := sides z
  have := sides w
  refine ⟨pair.add other (by norm_num) (by norm_num), ?_⟩
  simp only [exactTurn, Quat.lengthSquared, ← sq]
  norm_num at *
  linarith

/-- A quaternion that is neither long nor too short is scaled to one close to one of length one. -/
theorem exists_turn_of_normalize {turn : Quat Float32} (x : Within 4 turn.x) (y : Within 4 turn.y)
    (z : Within 4 turn.z) (w : Within 4 turn.w) (apart : 2 ^ (-22 : ℤ) ≤ reading turn.w) :
    ∃ exact : Quat ℝ, exact.lengthSquared = 1 ∧ CloseTurn exact turn.normalize := by
  obtain ⟨squares, great⟩ := lengthSquared_within x y z w
  have below := part_le_lengthSquared turn
  obtain ⟨square, isSquare⟩ : ∃ square, square = (exactTurn turn).lengthSquared := ⟨_, rfl⟩
  rw [← isSquare] at great below
  have long : (2 ^ (-22 : ℤ)) ^ 2 ≤ square :=
    (pow_le_pow_left₀ (by positivity) apart 2).trans (below turn.w (by simp))
  have error := lengthSquared_error squares.finite
    (by rw [← isSquare]; norm_num at long ⊢; linarith)
  rw [← isSquare] at error
  have positive : 0 < square := (by positivity : (0 : ℝ) < (2 ^ (-22 : ℤ)) ^ 2).trans_le long
  have least : 2 ^ (-22 : ℤ) ≤ √square := Real.le_sqrt_of_sq_le long
  have most : √square ≤ 2 ^ (5 : ℤ) :=
    Real.sqrt_le_iff.mpr ⟨by positivity, great.trans (by norm_num)⟩
  have nonneg : 0 ≤ reading turn.lengthSquared := by
    have lower := (abs_le.mp error).1
    norm_num at lower
    linarith
  obtain ⟨lengthFinite, lengthError⟩ := length_error squares.finite nonneg least most
    (by rwa [Real.sq_sqrt positive.le])
  have divided : ∀ part ∈ [turn.x, turn.y, turn.z, turn.w], part.isFinite = true →
      Close 0 (reading part / √square) (2 ^ (-17 : ℤ))
        (part / Scalar.sqrt turn.lengthSquared) := fun part member finite =>
    close_div_length finite lengthFinite (Real.sqrt_pos.mpr positive)
      (Real.abs_le_sqrt (below part member)) lengthError
  refine ⟨(exactTurn turn).normalize, Quat.lengthSquared_normalize (isSquare ▸ positive), ?_⟩
  have exactParts : (exactTurn turn).normalize = ⟨reading turn.x / √square,
      reading turn.y / √square, reading turn.z / √square, reading turn.w / √square⟩ := by
    rw [isSquare]
    rfl
  rw [exactParts]
  exact ⟨divided _ (by simp) x.finite, divided _ (by simp) y.finite, divided _ (by simp) z.finite,
    divided _ (by simp) w.finite⟩

/-! ## Shortest rotations -/

/-- The sine and the cosine of a right angle, as the halved angle of half a turn, are close to one
and zero. -/
structure RightAngle : Prop where
  sine : Close 0 1 (2 ^ (-18 : ℤ)) (Scalar.sin (Scalar.pi * 0.5 : Float32))
  cosine : Close 0 0 (2 ^ (-17 : ℤ)) (Scalar.cos (Scalar.pi * 0.5 : Float32))

/-- Directions above this height count as the upward one, and those below its opposite as the
downward one. -/
def closeness : Float32 := 1 - 2.0 * Scalar.epsilon

theorem closeTurn_halfTurn (angle : RightAngle) :
    CloseTurn ⟨0, 0, -1, 0⟩
      (Quat.ofAxisAngle (Quat.anyOrthonormal (Vec3.up : Vec3 Float32)) Scalar.pi) := by
  have zero : ∀ {value : Float32} {sign : Float.Model.UnpackedFloat.Sign}, value.isFinite = true →
      meaning value = .zero sign → Close 0 0 0 value := fun finite reads =>
    ⟨finite, by norm_num, by rw [reading_of_zero reads]; norm_num⟩
  have minusOne : Close 0 (-1) 0 (-1 : Float32) :=
    ⟨by decide, by norm_num, by rw [reading_neg, reading_one]; norm_num⟩
  have part : ∀ {exact : ℝ} {value : Float32}, Close 0 exact 0 value →
      Close 0 exact (2 ^ (-17 : ℤ)) (value * Scalar.sin (Scalar.pi * 0.5)) := by
    intro exact value close
    have product := close.mul angle.sine (2 ^ (-17 : ℤ)) le_rfl (by norm_num) (by norm_num)
      (by norm_num) (by norm_num)
    simpa using product
  have x : (Quat.anyOrthonormal (Vec3.up : Vec3 Float32)).x = -0 := by decide
  have y : (Quat.anyOrthonormal (Vec3.up : Vec3 Float32)).y = 0 := by decide
  have z : (Quat.anyOrthonormal (Vec3.up : Vec3 Float32)).z = -1 := by decide
  refine ⟨part ?_, part ?_, part ?_, angle.cosine⟩
  · rw [x]
    exact @zero _ .negative (by decide) rfl
  · rw [y]
    exact @zero _ .positive (by decide) rfl
  · rw [z]
    exact minusOne

theorem exists_turn_of_rotationArc {direction : Vec3 Float32} (x : Within 1 direction.x)
    (y : Within 1 direction.y) (z : Within 1 direction.z)
    (downward : Vec3.up.dot direction < -closeness → RightAngle) :
    ∃ exact : Quat ℝ, exact.lengthSquared = 1 ∧
      CloseTurn exact (Quat.rotationArc .up direction) := by
  unfold Quat.rotationArc
  dsimp only
  split
  · exact ⟨.identity, Quat.lengthSquared_identity, closeTurn_identity⟩
  split
  · rename_i half
    exact ⟨⟨0, 0, -1, 0⟩, by norm_num [Quat.lengthSquared], closeTurn_halfTurn (downward half)⟩
  · rename_i apart
    change ¬Vec3.up.dot direction < -closeness at apart
    have one : ∀ {value : Float32}, Within 1 value →
        Within 1 (1 * value) ∧ Within 1 (value * 1) := fun within =>
      ⟨within_one.mul within (by norm_num) (by norm_num),
        within.mul within_one (by norm_num) (by norm_num)⟩
    have height : Within 3 (Vec3.up.dot direction) :=
      ((Within.zero_mul x.finite).add (one y).1 (by norm_num) (by norm_num)).add
        (Within.zero_mul z.finite) (by norm_num) (by norm_num)
    refine exists_turn_of_normalize ?_ ?_ ?_ ?_ ?_
    · exact ((one z).1.sub (.mul_zero y.finite) (by norm_num) (by norm_num)).mono (by norm_num)
    · exact ((Within.zero_mul x.finite).sub (.mul_zero z.finite) (by norm_num : -150 ≤ (1 : ℤ))
        (by norm_num)).mono (by norm_num)
    · exact ((Within.zero_mul y.finite).sub (one x).2 (by norm_num) (by norm_num)).mono
        (by norm_num)
    · exact (within_one.mono (by norm_num)).add height (by norm_num) (by norm_num)
    · have said : meaning (-closeness) = .finite .negative 16777212 (-24) (by decide) := rfl
      have least : reading (-closeness) ≤ reading (Vec3.up.dot direction) := by
        refine reading_le (by decide) height.finite ?_
        by_contra below
        exact apart (lt_iff.mpr ⟨(isFinite_iff_place.mp height.finite).1, by decide, by omega⟩)
      rw [reading_of_finite said] at least
      have sum := near_sum ((within_one.mono (by norm_num)).add height (by norm_num)
        (by norm_num)).finite
      refine sum.least _ (onGrid_two_zpow (by norm_num)) ?_
      rw [reading_one]
      norm_num [factor] at least ⊢
      linarith

end Grove.Single
