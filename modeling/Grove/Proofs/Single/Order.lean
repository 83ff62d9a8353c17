import Grove.Proofs.Single.Encoding

/-!
# The order of single precision

Every number has a place among the integers: its word without the sign, counted up or down from
zero. Comparisons of numbers are comparisons of places, and what is not a number compares with
nothing.
-/

set_option autoImplicit false

namespace Grove.Single

open Float.Model (UnpackedFloat)
open Float.Model.UnpackedFloat

/-- The place of a number in the order of all numbers: its bits without the sign, with that sign. -/
def place (value : Float32) : Int :=
  (sign value).apply (exponentField value * 2 ^ 23 + fractionField value : Nat)

/-- The place of the greatest infinity. -/
def endPlace : Int := 0x7f800000

/-- The significands and exponents that finite numbers have. -/
structure Canonical (significand : Nat) (exponent : Int) : Prop where
  positive : 0 < significand
  bounded : significand < 2 ^ 24
  least : -149 ≤ exponent
  greatest : exponent ≤ 104
  normal : 2 ^ 23 ≤ significand ∨ exponent = -149

/-- The place of the positive finite number with a significand and an exponent. -/
def finitePlace (significand : Nat) (exponent : Int) : Int :=
  (exponent + 149) * 2 ^ 23 + significand

theorem Canonical.place_positive {significand : Nat} {exponent : Int}
    (canonical : Canonical significand exponent) : 0 < finitePlace significand exponent := by
  obtain ⟨positive, -, least, -, -⟩ := canonical
  unfold finitePlace
  omega

theorem Canonical.place_before_end {significand : Nat} {exponent : Int}
    (canonical : Canonical significand exponent) :
    finitePlace significand exponent < endPlace := by
  obtain ⟨-, bounded, -, greatest, -⟩ := canonical
  unfold finitePlace endPlace
  omega

/-- What a number can say, and where it stands in the order. -/
theorem meaning_cases {value : Float32} (number : value.isNaN = false) :
    (∃ sign, meaning value = .infinity sign ∧ place value = sign.apply endPlace) ∨
    (∃ sign, meaning value = .zero sign ∧ place value = 0) ∨
    ∃ sign significand exponent positive,
      meaning value = .finite sign significand exponent positive ∧
        Canonical significand exponent ∧
        place value = sign.apply (finitePlace significand exponent) := by
  have fraction : fractionField value < 2 ^ 23 := Nat.mod_lt _ (by decide)
  have exponent : exponentField value < 2 ^ 8 := Nat.mod_lt _ (by decide)
  have read := meaning_eq value
  have numeric : ¬ (exponentField value = 255 ∧ fractionField value ≠ 0) := by
    rw [← isNaN_iff, number]
    exact Bool.false_ne_true
  split at read
  · rw [if_pos (by omega)] at read
    refine .inl ⟨_, read, congrArg (sign value).apply ?_⟩
    unfold endPlace
    omega
  · split at read
    · split at read
      · refine .inr (.inl ⟨_, read, ?_⟩)
        unfold place Sign.apply
        split <;> omega
      · refine .inr (.inr ⟨_, _, _, _, read,
          ⟨by omega, by omega, by omega, by omega, .inr rfl⟩, congrArg (sign value).apply ?_⟩)
        unfold finitePlace
        omega
    · refine .inr (.inr ⟨_, _, _, _, read,
        ⟨by omega, by omega, by omega, by omega, .inl (by omega)⟩,
        congrArg (sign value).apply ?_⟩)
      unfold finitePlace
      omega

theorem sign_eq_of_signField {value : Float32} {other : Sign}
    (field : signField value = other.toBitVec.toNat) : sign value = other := by
  unfold sign
  rw [field]
  cases other <;> rfl

theorem meaning_encode {significand : Nat} {exponent : Int}
    (canonical : Canonical significand exponent) (signed : Sign) :
    meaning (encode (.finite signed significand exponent canonical.positive)) =
      .finite signed significand exponent canonical.positive := by
  obtain ⟨value, encoded⟩ : ∃ value,
      value = encode (.finite signed significand exponent canonical.positive) := ⟨_, rfl⟩
  obtain ⟨positive, bounded, least, greatest, normal⟩ := canonical
  have one : signed.toBitVec.toNat ≤ 1 := by cases signed <;> decide
  rw [← encoded, meaning_eq]
  rcases Nat.lt_or_ge significand (2 ^ 23) with subnormal | large
  · obtain rfl : exponent = -149 := by omega
    have bits : value.toBits.toNat = signed.toBitVec.toNat * 2 ^ 31 + significand := by
      rw [encoded, toBits_encode_subnormal signed significand positive subnormal]
    have noExponent : exponentField value = 0 := by
      unfold exponentField
      omega
    have fraction : fractionField value = significand := by
      unfold fractionField
      omega
    have same : sign value = signed := sign_eq_of_signField (by unfold signField; omega)
    rw [if_neg (by omega), if_pos noExponent, dif_neg (by omega)]
    simp only [same, fraction]
  · obtain ⟨biased, shifted⟩ : ∃ biased : Nat, exponent = biased - 150 :=
      ⟨(exponent + 150).toNat, by omega⟩
    subst shifted
    have bits : value.toBits.toNat =
        signed.toBitVec.toNat * 2 ^ 31 + biased * 2 ^ 23 + (significand - 2 ^ 23) := by
      rw [encoded, toBits_encode_normal signed significand biased large bounded (by omega)]
    have exponent : exponentField value = biased := by
      unfold exponentField
      omega
    have fraction : fractionField value = significand - 2 ^ 23 := by
      unfold fractionField
      omega
    have same : sign value = signed := sign_eq_of_signField (by unfold signField; omega)
    have whole : 2 ^ 23 + (significand - 2 ^ 23) = significand := by omega
    rw [if_neg (by omega), if_neg (by omega)]
    simp only [same, exponent, fraction, whole]
theorem compare_finite {leftSignificand rightSignificand : Nat} {leftExponent rightExponent : Int}
    (left : Canonical leftSignificand leftExponent)
    (right : Canonical rightSignificand rightExponent) :
    (compare leftExponent rightExponent).then (compare leftSignificand rightSignificand) =
      compare (finitePlace leftSignificand leftExponent)
        (finitePlace rightSignificand rightExponent) := by
  obtain ⟨-, leftBounded, leftLeast, -, leftNormal⟩ := left
  obtain ⟨-, rightBounded, rightLeast, -, rightNormal⟩ := right
  unfold finitePlace
  rcases Int.lt_trichotomy leftExponent rightExponent with below | rfl | above
  · rw [Int.compare_eq_lt.mpr below, Int.compare_eq_lt.mpr (by omega)]
    rfl
  · rw [Int.compare_eq_eq.mpr rfl]
    change compare leftSignificand rightSignificand = _
    rcases Nat.lt_trichotomy leftSignificand rightSignificand with below | rfl | above
    · rw [Nat.compare_eq_lt.mpr below, Int.compare_eq_lt.mpr (by omega)]
    · rw [Nat.compare_eq_eq.mpr rfl, Int.compare_eq_eq.mpr rfl]
    · rw [Nat.compare_eq_gt.mpr above, Int.compare_eq_gt.mpr (by omega)]
  · rw [Int.compare_eq_gt.mpr above, Int.compare_eq_gt.mpr (by omega)]
    rfl

theorem compare_neg (left right : Int) : compare (-left) (-right) = (compare left right).swap := by
  rcases Int.lt_trichotomy left right with below | rfl | above
  · rw [Int.compare_eq_lt.mpr below, Int.compare_eq_gt.mpr (by omega)]
    rfl
  · rw [Int.compare_eq_eq.mpr rfl, Int.compare_eq_eq.mpr rfl]
    rfl
  · rw [Int.compare_eq_gt.mpr above, Int.compare_eq_lt.mpr (by omega)]
    rfl

theorem compare_meaning {left right : Float32} (leftNumber : left.isNaN = false)
    (rightNumber : right.isNaN = false) :
    (meaning left).compare (meaning right) = some (compare (place left) (place right)) := by
  have farEnd : endPlace = 0x7f800000 := rfl
  rcases meaning_cases leftNumber with
    ⟨sign, reads, placed⟩ | ⟨sign, reads, placed⟩ | ⟨sign, _, _, _, reads, canonical, placed⟩
  · rcases meaning_cases rightNumber with
      ⟨other, otherReads, otherPlaced⟩ | ⟨other, otherReads, otherPlaced⟩ |
        ⟨other, _, _, _, otherReads, otherCanonical, otherPlaced⟩
    · rw [reads, otherReads, placed, otherPlaced]
      cases sign <;> cases other <;> rfl
    · rw [reads, otherReads, placed, otherPlaced]
      cases sign <;> cases other <;> rfl
    · have below := otherCanonical.place_before_end
      have above := otherCanonical.place_positive
      rw [reads, otherReads, placed, otherPlaced]
      cases sign
      · rw [Int.compare_eq_lt.mpr (by cases other <;> simp only [Sign.apply] <;> omega)]
        rfl
      · rw [Int.compare_eq_gt.mpr (by cases other <;> simp only [Sign.apply] <;> omega)]
        rfl
  · rcases meaning_cases rightNumber with
      ⟨other, otherReads, otherPlaced⟩ | ⟨other, otherReads, otherPlaced⟩ |
        ⟨other, _, _, _, otherReads, otherCanonical, otherPlaced⟩
    · rw [reads, otherReads, placed, otherPlaced]
      cases other <;> rfl
    · rw [reads, otherReads, placed, otherPlaced]
      rfl
    · have above := otherCanonical.place_positive
      rw [reads, otherReads, placed, otherPlaced]
      cases other
      · rw [Int.compare_eq_gt.mpr (by simp only [Sign.apply]; omega)]
        rfl
      · rw [Int.compare_eq_lt.mpr (by simp only [Sign.apply]; omega)]
        rfl
  · have below := canonical.place_before_end
    have above := canonical.place_positive
    rcases meaning_cases rightNumber with
      ⟨other, otherReads, otherPlaced⟩ | ⟨other, otherReads, otherPlaced⟩ |
        ⟨other, _, _, _, otherReads, otherCanonical, otherPlaced⟩
    · rw [reads, otherReads, placed, otherPlaced]
      cases other
      · rw [Int.compare_eq_gt.mpr (by cases sign <;> simp only [Sign.apply] <;> omega)]
        rfl
      · rw [Int.compare_eq_lt.mpr (by cases sign <;> simp only [Sign.apply] <;> omega)]
        rfl
    · rw [reads, otherReads, placed, otherPlaced]
      cases sign
      · rw [Int.compare_eq_lt.mpr (by simp only [Sign.apply]; omega)]
        rfl
      · rw [Int.compare_eq_gt.mpr (by simp only [Sign.apply]; omega)]
        rfl
    · have otherAbove := otherCanonical.place_positive
      have same := compare_finite canonical otherCanonical
      rw [reads, otherReads, placed, otherPlaced]
      cases sign <;> cases other
      · change some (Ordering.swap _) = some (compare (- _) (- _))
        rw [same, compare_neg]
      · rw [Int.compare_eq_lt.mpr (by simp only [Sign.apply]; omega)]
        rfl
      · rw [Int.compare_eq_gt.mpr (by simp only [Sign.apply]; omega)]
        rfl
      · change some _ = some (compare (finitePlace _ _) (finitePlace _ _))
        rw [same]

theorem compare_none {left right : Float32} (notNumber : left.isNaN = true ∨ right.isNaN = true) :
    (meaning left).compare (meaning right) = none := by
  rcases notNumber with leftNot | rightNot
  · rw [isNaN_eq] at leftNot
    cases reads : meaning left <;> simp_all [UnpackedFloat.isNaN, UnpackedFloat.compare]
  · rw [isNaN_eq] at rightNot
    cases reads : meaning right <;> simp_all [UnpackedFloat.isNaN]
    cases meaning left <;> simp [UnpackedFloat.compare]

/-- Numbers are compared by their places; what is not a number does not compare. -/
theorem compare_eq_some_iff {left right : Float32} {order : Ordering} :
    (meaning left).compare (meaning right) = some order ↔
      left.isNaN = false ∧ right.isNaN = false ∧ compare (place left) (place right) = order := by
  cases leftNot : left.isNaN
  · cases rightNot : right.isNaN
    · rw [compare_meaning leftNot rightNot]
      simp
    · rw [compare_none (.inr rightNot)]
      simp
  · rw [compare_none (.inl leftNot)]
    simp

theorem lt_iff {left right : Float32} :
    left < right ↔ left.isNaN = false ∧ right.isNaN = false ∧ place left < place right := by
  change decide (((meaning left).compare (meaning right) == some .lt) = true) = true ↔ _
  rw [decide_eq_true_iff, beq_iff_eq, compare_eq_some_iff, Int.compare_eq_lt]

theorem beq_iff {left right : Float32} :
    (left == right) = true ↔
      left.isNaN = false ∧ right.isNaN = false ∧ place left = place right := by
  change ((meaning left).compare (meaning right) == some .eq) = true ↔ _
  rw [beq_iff_eq, compare_eq_some_iff, Int.compare_eq_eq]

theorem le_iff {left right : Float32} :
    left ≤ right ↔ left.isNaN = false ∧ right.isNaN = false ∧ place left ≤ place right := by
  change decide (((meaning left).compare (meaning right)).any (·.isLE) = true) = true ↔ _
  rw [decide_eq_true_iff]
  cases leftNot : left.isNaN
  · cases rightNot : right.isNaN
    · rw [compare_meaning leftNot rightNot]
      simp [Int.isLE_compare]
    · rw [compare_none (.inr rightNot)]
      simp
  · rw [compare_none (.inl leftNot)]
    simp

@[simp] theorem scalar_isNaN (value : Float32) : Scalar.isNaN value = value.isNaN := by
  unfold Scalar.isNaN
  rw [Bool.eq_iff_iff, Bool.not_eq_true', ← Bool.not_eq_true, beq_iff]
  simp

theorem zero_isNaN : (0 : Float32).isNaN = false := by decide

theorem one_isNaN : (1 : Float32).isNaN = false := by decide

theorem place_zero : place 0 = 0 := by decide

theorem place_one : place 1 = 0x3f800000 := by decide

theorem eq_of_place {left right : Float32} (same : place left = place right)
    (nonzero : place left ≠ 0) : left = right := by
  have leftFields := fields_toNat left
  have rightFields := fields_toNat right
  have leftBound := left.toBits.toNat_lt
  have rightBound := right.toBits.toNat_lt
  apply Float32.toBits_inj.mp
  apply UInt32.toNat_inj.mp
  unfold place sign at same nonzero
  rw [leftFields, rightFields]
  by_cases leftPositive : signField left = 0 <;> by_cases rightPositive : signField right = 0
  all_goals
    simp only [leftPositive, rightPositive, if_true, if_false, Sign.apply] at same nonzero
    omega

theorem isFinite_iff_place {value : Float32} :
    value.isFinite = true ↔
      value.isNaN = false ∧ -endPlace < place value ∧ place value < endPlace := by
  have fraction : fractionField value < 2 ^ 23 := Nat.mod_lt _ (by decide)
  have exponent : exponentField value < 2 ^ 8 := Nat.mod_lt _ (by decide)
  rw [isFinite_iff, ← Bool.not_eq_true, isNaN_iff]
  unfold place endPlace sign
  split <;> simp only [Sign.apply] <;> omega

theorem not_le_zero_iff {value : Float32} (number : value.isNaN = false) :
    ¬value ≤ 0 ↔ 0 < place value := by
  rw [le_iff, place_zero, ← Int.not_le]
  exact not_congr ⟨fun below => below.2.2, fun below => ⟨number, zero_isNaN, below⟩⟩

theorem not_lt_zero_iff {value : Float32} (number : value.isNaN = false) :
    ¬value < 0 ↔ 0 ≤ place value := by
  rw [lt_iff, place_zero, ← Int.not_lt]
  exact not_congr ⟨fun below => below.2.2, fun below => ⟨number, zero_isNaN, below⟩⟩

end Grove.Single
