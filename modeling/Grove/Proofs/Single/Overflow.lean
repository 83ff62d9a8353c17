import Grove.Proofs.Single.Lengths

/-!
# Lengths that overflow

The square of a length is never negative. Where it overflows, scaling the vector by its inverse
length leaves zeros and what is not a number, and no axis can be found from those.
-/

set_option autoImplicit false

namespace Grove.Single

open Float.Model (UnpackedFloat)
open Float.Model.UnpackedFloat

theorem place_roundWithAccuracy_nonneg (significand : ℕ) (exponent : ℤ) (accuracy : Accuracy) :
    0 ≤ place (encode (roundWithAccuracy .binary32 .positive significand exponent accuracy)) := by
  unfold roundWithAccuracy
  dsimp only
  split
  · decide
  · exact place_encode_positive _

theorem place_square_nonneg (value : Float32) : 0 ≤ place (value * value) := by
  change 0 ≤ place (encode (UnpackedFloat.mul .binary32 (meaning value) (meaning value)))
  cases meaning value with
  | notANumber => decide
  | infinity sign | zero sign => cases sign <;> decide
  | finite sign =>
      cases sign with
      | positive | negative => exact place_roundWithAccuracy_nonneg _ _ _

theorem eq_of_not_finite {value : Float32} (special : value.isFinite = false)
    (nonneg : 0 ≤ place value) :
    value = encode (.infinity .positive) ∨ value = encode .notANumber := by
  rw [← encode_meaning value] at nonneg ⊢
  have said : (meaning value).isFinite = false := special
  cases reads : meaning value with
  | notANumber => exact .inr rfl
  | infinity sign =>
      cases sign with
      | positive => exact .inl rfl
      | negative =>
          rw [reads] at nonneg
          exact absurd nonneg (by decide)
  | zero | finite =>
      rw [reads] at said
      cases said

theorem add_notANumber (value : Float32) : value + encode .notANumber = encode .notANumber := by
  change encode (UnpackedFloat.add .binary32 (meaning value) .notANumber) = _
  cases meaning value <;> rfl

theorem place_add_nonneg {left right : Float32} (leftNonneg : 0 ≤ place left)
    (rightNonneg : 0 ≤ place right) : 0 ≤ place (left + right) := by
  have special : ∀ other : Float32, 0 ≤ place (encode .notANumber + other) ∧
      0 ≤ place (encode (.infinity .positive) + other) := by
    intro other
    change 0 ≤ place (encode (UnpackedFloat.add .binary32 .notANumber (meaning other))) ∧
      0 ≤ place (encode (UnpackedFloat.add .binary32 (.infinity .positive) (meaning other)))
    cases meaning other with
    | notANumber => decide
    | infinity sign => cases sign <;> decide
    | zero | finite => exact (by decide :
        0 ≤ place (encode .notANumber) ∧ 0 ≤ place (encode (.infinity .positive)))
  cases leftFinite : left.isFinite with
  | false =>
      rcases eq_of_not_finite leftFinite leftNonneg with rfl | rfl
      · exact (special right).2
      · exact (special right).1
  | true =>
      cases rightNumber : right.isNaN with
      | false => exact leftNonneg.trans (le_place_add leftFinite leftNonneg rightNumber rightNonneg)
      | true =>
          have special : right.isFinite = false := by
            rw [← Bool.not_eq_true, isFinite_iff_place, rightNumber]
            exact fun finite => Bool.false_ne_true finite.1.symm
          rcases eq_of_not_finite special rightNonneg with rfl | rfl
          · cases rightNumber
          · rw [add_notANumber]
            decide

theorem place_lengthSquared_nonneg (vector : Vec3 Float32) : 0 ≤ place vector.lengthSquared :=
  place_add_nonneg (place_add_nonneg (place_square_nonneg _) (place_square_nonneg _))
    (place_square_nonneg _)

/-- What is left of a vector whose length has overflown -/
def spent : List Float32 :=
  [.zero .positive, .zero .negative, .notANumber].map encode

theorem mul_mem_spent (value : Float32) {factor : Float32}
    (lost : factor = encode (.zero .positive) ∨ factor = encode .notANumber) :
    value * factor ∈ spent := by
  have product : ∀ said, said = .zero .positive ∨ said = .notANumber →
      UnpackedFloat.mul .binary32 (meaning value) said ∈
        [.zero .positive, .zero .negative, .notANumber] := by
    rintro _ (rfl | rfl)
    · cases meaning value with
      | notANumber | infinity => simp [UnpackedFloat.mul]
      | zero sign | finite sign =>
          cases sign with
          | positive => exact .head _
          | negative => exact .tail _ (.head _)
    · cases meaning value <;> simp [UnpackedFloat.mul]
  rcases lost with rfl | rfl
  · exact List.mem_map_of_mem (product (.zero .positive) (.inl rfl))
  · exact List.mem_map_of_mem (product .notANumber (.inr rfl))

theorem inverse_length_of_overflow {vector : Vec3 Float32}
    (overflow : vector.lengthSquared.isFinite = false) :
    1 / vector.length = encode (.zero .positive) ∨ 1 / vector.length = encode .notANumber := by
  unfold Vec3.length
  rcases eq_of_not_finite overflow (place_lengthSquared_nonneg vector) with same | same
  · rw [same]
    exact .inl (by decide)
  · rw [same]
    exact .inr (by decide)

theorem normalize_mem_spent {vector : Vec3 Float32}
    (overflow : vector.lengthSquared.isFinite = false) :
    ∀ part ∈ parts vector.normalize, part ∈ spent := by
  have lost := inverse_length_of_overflow overflow
  change ∀ part ∈ [_ * _, _ * _, _ * _], part ∈ spent
  simp only [List.forall_mem_cons]
  exact ⟨mul_mem_spent _ lost, mul_mem_spent _ lost, mul_mem_spent _ lost, nofun⟩

theorem isNaN_of_spent : ∀ x ∈ spent, ∀ y ∈ spent, ∀ z ∈ spent,
    ∀ part ∈ parts (Vec3.up.cross ⟨x, y, z⟩).normalize, part.isNaN = true := by
  decide +kernel

/-- No axis can be found for a vector whose squared length overflows. -/
theorem isNaN_of_overflow {vector : Vec3 Float32}
    (overflow : vector.lengthSquared.isFinite = false) :
    ∀ part ∈ parts (Vec3.up.cross vector.normalize).normalize, part.isNaN = true := by
  have lost := normalize_mem_spent overflow
  simp only [parts, List.forall_mem_cons] at lost
  obtain ⟨x, y, z, -⟩ := lost
  exact isNaN_of_spent _ x _ y _ z

end Grove.Single
