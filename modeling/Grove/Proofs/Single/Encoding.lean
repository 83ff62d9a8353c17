import Mathlib
import Grove.Scalar

/-!
# Words of single precision

A number of single precision is a word of three fields: a sign, an exponent and a fraction. This
module relates the fields to what the number reads, and shows that a number reads enough to be
encoded again.
-/

set_option autoImplicit false

namespace Grove.Single

open Float.Model (Format totalExponent UnpackedFloat)
open Float.Model.UnpackedFloat

theorem unpackMantissa_toNat (word : BitVec 32) :
    (@unpackMantissa .binary32 word).toNat = word.toNat % 2 ^ 23 := by
  simp [unpackMantissa, BitVec.extractLsb]

theorem unpackExponent_toNat (word : BitVec 32) :
    (@unpackExponent .binary32 word).toNat = word.toNat / 2 ^ 23 % 2 ^ 8 := by
  simp [unpackExponent, BitVec.extractLsb, Nat.shiftRight_eq_div_pow]

theorem unpackSign_toNat (word : BitVec 32) :
    (@unpackSign .binary32 word).toNat = word.toNat / 2 ^ 31 := by
  have bound := word.isLt
  simp [unpackSign, BitVec.extractLsb, Nat.shiftRight_eq_div_pow]
  omega

theorem packComponents_toNat (sign : Sign) (exponent : BitVec 8) (fraction : BitVec 23) :
    (packComponents Format.binary32 sign exponent fraction).toNat =
      sign.toBitVec.toNat * 2 ^ 31 + exponent.toNat * 2 ^ 23 + fraction.toNat := by
  have low := fraction.isLt
  have middle := exponent.isLt
  have inner :
      (sign.toBitVec ++ exponent).toNat = sign.toBitVec.toNat * 2 ^ 8 + exponent.toNat := by
    rw [BitVec.toNat_append, Nat.shiftLeft_eq, Nat.mul_comm, Nat.two_pow_add_eq_or_of_lt middle]
  change (sign.toBitVec ++ exponent ++ fraction).toNat = _
  rw [BitVec.toNat_append, inner, Nat.shiftLeft_eq, Nat.mul_comm,
    ← Nat.two_pow_add_eq_or_of_lt low]
  omega

def signField (value : Float32) : Nat :=
  value.toBits.toNat / 2 ^ 31

def exponentField (value : Float32) : Nat :=
  value.toBits.toNat / 2 ^ 23 % 2 ^ 8

def fractionField (value : Float32) : Nat :=
  value.toBits.toNat % 2 ^ 23

def sign (value : Float32) : Sign :=
  if signField value = 0 then .positive else .negative

/-- What the bits of a number say. -/
def meaning (value : Float32) : UnpackedFloat :=
  value.toModel.unpack

/-- The number that reads the given. -/
def encode (said : UnpackedFloat) : Float32 :=
  .ofModel (.pack said)

theorem implicitBit_toNat (fraction : BitVec 23) :
    (1#1 ++ fraction).toNat = 2 ^ 23 + fraction.toNat := by
  have low := fraction.isLt
  rw [BitVec.toNat_append, Nat.shiftLeft_eq, Nat.mul_comm, ← Nat.two_pow_add_eq_or_of_lt low]
  rfl

theorem ofBitVec_unpackSign (value : Float32) :
    Sign.ofBitVec (@unpackSign .binary32 value.toModel.toBits.toBitVec) =
      sign value := by
  have field := unpackSign_toNat value.toModel.toBits.toBitVec
  simp only [Sign.ofBitVec, sign, signField, ← BitVec.toNat_inj]
  rw [field]
  rfl

theorem meaning_eq (value : Float32) :
    meaning value =
      if exponentField value = 255 then
        if fractionField value = 0 then .infinity (sign value) else .notANumber
      else if exponentField value = 0 then
        if positive : fractionField value = 0 then .zero (sign value)
        else .finite (sign value) (fractionField value) (-149) (Nat.pos_of_ne_zero positive)
      else
        .finite (sign value) (2 ^ 23 + fractionField value) (exponentField value - 150)
          (by omega) := by
  have exponent : (@unpackExponent .binary32 value.toModel.toBits.toBitVec).toNat =
      exponentField value := unpackExponent_toNat _
  have fraction : (@unpackMantissa .binary32 value.toModel.toBits.toBitVec).toNat =
      fractionField value := unpackMantissa_toNat _
  have allOnes : @unpackExponent .binary32 value.toModel.toBits.toBitVec = -1#_ ↔
      exponentField value = 255 := by
    rw [← BitVec.toNat_inj, exponent]; rfl
  have noExponent : @unpackExponent .binary32 value.toModel.toBits.toBitVec = 0#_ ↔
      exponentField value = 0 := by
    rw [← BitVec.toNat_inj, exponent]; rfl
  have noFraction : @unpackMantissa .binary32 value.toModel.toBits.toBitVec = 0#_ ↔
      fractionField value = 0 := by
    rw [← BitVec.toNat_inj, fraction]; rfl
  have bias : ((Format.exponentBias Format.binary32 : Int) +
      Format.mantissaBitsWithoutImplicit Format.binary32) = 150 := rfl
  unfold meaning Float32.Model.unpack UnpackedFloat.unpack
  simp only [ofBitVec_unpackSign, allOnes, noExponent, noFraction, implicitBit_toNat, exponent,
    fraction, bias]
  split
  · rfl
  · split
    · split
      · rfl
      · simp_all
    · rfl

theorem fields_toNat (value : Float32) :
    value.toBits.toNat =
      signField value * 2 ^ 31 + exponentField value * 2 ^ 23 + fractionField value := by
  have bound := value.toBits.toNat_lt
  simp only [signField, exponentField, fractionField]
  omega

theorem toBits_encode (said : UnpackedFloat) :
    (encode said).toBits.toNat = (pack Format.binary32 said).toNat := rfl

theorem toBits_encode_normal (sign : Sign) (significand exponent : Nat)
    (least : 2 ^ 23 ≤ significand) (greatest : significand < 2 ^ 24) (small : exponent < 255) :
    (encode (.finite sign significand (exponent - 150) (by omega))).toBits.toNat =
      sign.toBitVec.toNat * 2 ^ 31 + exponent * 2 ^ 23 + (significand - 2 ^ 23) := by
  have digits : significand.log2 = 23 := (Nat.log2_eq_iff (by omega)).mpr ⟨least, greatest⟩
  have biased : ((exponent : Int) - 150 + Format.exponentBias Format.binary32 +
      Format.mantissaBitsWithoutImplicit Format.binary32).toNat = exponent := by
    change ((exponent : Int) - 150 + 127 + 23).toNat = exponent
    omega
  rw [toBits_encode, pack]
  simp only [biased, digits]
  rw [if_neg (by omega), if_pos (by decide), packComponents_toNat]
  simp only [BitVec.toNat_ofNat]
  omega

theorem toBits_encode_subnormal (sign : Sign) (significand : Nat) (positive : 0 < significand)
    (greatest : significand < 2 ^ 23) :
    (encode (.finite sign significand (-149) positive)).toBits.toNat =
      sign.toBitVec.toNat * 2 ^ 31 + significand := by
  have digits : significand.log2 < 23 := (Nat.log2_lt (by omega)).mpr greatest
  rw [toBits_encode, pack]
  rw [if_neg (by decide), if_neg (by unfold Format.mantissaBits; simp; omega), packComponents_toNat]
  simp only [BitVec.toNat_ofNat]
  omega

theorem encode_meaning (value : Float32) : encode (meaning value) = value :=
  Float32.ofBits_toBits value

theorem isNaN_eq (value : Float32) : value.isNaN = (meaning value).isNaN := rfl

theorem isNaN_iff (value : Float32) :
    value.isNaN = true ↔ exponentField value = 255 ∧ fractionField value ≠ 0 := by
  rw [isNaN_eq, meaning_eq]
  split
  · split <;> simp_all [UnpackedFloat.isNaN]
  · split
    · split <;> simp_all [UnpackedFloat.isNaN]
    · simp_all [UnpackedFloat.isNaN]

theorem isFinite_iff (value : Float32) : value.isFinite = true ↔ exponentField value ≠ 255 := by
  change (meaning value).isFinite = true ↔ _
  rw [meaning_eq]
  split
  · split <;> simp_all [UnpackedFloat.isFinite]
  · split
    · split <;> simp_all [UnpackedFloat.isFinite]
    · simp_all [UnpackedFloat.isFinite]

theorem isNaN_encode {said : UnpackedFloat} (number : said.isNaN = false) :
    (encode said).isNaN = false := by
  rw [← Bool.not_eq_true, isNaN_iff]
  unfold exponentField fractionField
  cases said with
  | notANumber => cases number
  | infinity sign => cases sign <;> decide
  | zero sign => cases sign <;> decide
  | finite sign significand exponent positive =>
      rw [toBits_encode, pack]
      dsimp only
      split
      · cases sign <;> decide
      · rename_i small
        split
        · rw [packComponents_toNat]
          simp at small
          cases sign
          all_goals
            simp [Sign.toBitVec]
            omega
        · rw [packComponents_toNat]
          cases sign
          · simp [Sign.toBitVec]
            omega
          · simp [Sign.toBitVec]

end Grove.Single
