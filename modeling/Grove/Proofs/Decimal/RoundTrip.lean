import Grove.Proofs.Decimal.Positional
import Grove.Proofs.Single.Rounding

/-!
# Numbers that are read back

The search for the shortest decimal ends at the latest on the finest grid, which holds every finite
number of single precision without rounding. What it finds is read back as the number, and so is the
text that is written for any finite number.
-/

set_option autoImplicit false

namespace Grove.Decimal

open Single
open Float.Model (UnpackedFloat)
open Float.Model.UnpackedFloat

/-! ## The value of a number -/

private theorem finite_cases {value : Float32} (finite : value.isFinite = true)
    (nonzero : place value ≠ 0) :
    ∃ significand exponent, ∃ canonical : Canonical significand exponent,
      meaning value = .finite (sign value) significand exponent canonical.positive ∧
        Dyadic.ofFloat32 value = ⟨signField value == 1, significand, exponent⟩ := by
  have fraction : fractionField value < 2 ^ 23 := Nat.mod_lt _ (by decide)
  have exponent : exponentField value < 2 ^ 8 := Nat.mod_lt _ (by decide)
  have notFull := (isFinite_iff value).mp finite
  have read := meaning_eq value
  have dyadic : Dyadic.ofFloat32 value =
      if exponentField value = 0 then ⟨signField value == 1, fractionField value, -149⟩
      else ⟨signField value == 1, fractionField value + 2 ^ 23, exponentField value - 150⟩ := rfl
  rw [if_neg notFull] at read
  by_cases small : exponentField value = 0
  · have digits : fractionField value ≠ 0 := by
      intro nothing
      apply nonzero
      unfold place Sign.apply
      rw [small, nothing]
      split <;> rfl
    rw [if_pos small, dif_neg digits] at read
    rw [if_pos small] at dyadic
    exact ⟨_, _, ⟨by omega, by omega, by omega, by omega, .inr rfl⟩, read, dyadic⟩
  · rw [if_neg small] at read
    rw [if_neg small, Nat.add_comm] at dyadic
    exact ⟨_, _, ⟨by omega, by omega, by omega, by omega, .inl (by omega)⟩, read, dyadic⟩

/-! ## The finest grid -/

private theorem scaled_exact {significand : Nat} {exponent : Int} (least : -149 ≤ exponent) :
    ∃ digits : Nat, digits * 2 ^ (-exponent).toNat =
      significand * 2 ^ exponent.toNat * 10 ^ 149 := by
  have few : (-exponent).toNat ≤ 149 := by omega
  have divides : 2 ^ (-exponent).toNat ∣ 10 ^ 149 :=
    Nat.dvd_trans (Nat.pow_dvd_pow 2 few) ⟨5 ^ 149, by rw [← Nat.mul_pow]⟩
  obtain ⟨digits, multiple⟩ :=
    Nat.dvd_mul_left_of_dvd divides (significand * 2 ^ exponent.toNat)
  exact ⟨digits, by rw [multiple, Nat.mul_comm]⟩

private theorem neighbours_finest {number : Dyadic} {digits : Nat}
    (product : digits * 2 ^ (-number.exponent).toNat =
      number.significand * 2 ^ number.exponent.toNat * 10 ^ 149)
    (positive : 0 < digits) :
    neighbours number (-149) = [(digits, -149), (digits + 1, -149)] := by
  have two : 0 < 2 ^ (-number.exponent).toNat := Nat.two_pow_pos _
  have scaled : number.scaled (- -149) =
      (digits * 2 ^ (-number.exponent).toNat, 2 ^ (-number.exponent).toNat) := by
    rw [product]
    exact congrArg (Prod.mk _) (Nat.mul_one _)
  have fine : ¬ 10 * (digits * 2 ^ (-number.exponent).toNat) < 2 ^ (-number.exponent).toNat := by
    have more := Nat.le_mul_of_pos_left (2 ^ (-number.exponent).toNat) positive
    omega
  unfold neighbours
  rw [scaled]
  dsimp only
  rw [if_neg fine, Nat.mul_mod_left, Nat.mul_div_cancel _ two, if_neg (by omega)]

private theorem digits_lt {digits significand : Nat} {exponent : Int}
    (canonical : Canonical significand exponent)
    (product : digits * 2 ^ (-exponent).toNat = significand * 2 ^ exponent.toNat * 10 ^ 149) :
    digits < 10 ^ 188 := by
  obtain ⟨-, bounded, -, greatest, -⟩ := canonical
  have power : 2 ^ exponent.toNat ≤ 2 ^ 104 := Nat.pow_le_pow_right (by decide) (by omega)
  calc digits
      ≤ digits * 2 ^ (-exponent).toNat := Nat.le_mul_of_pos_right _ (Nat.two_pow_pos _)
    _ = significand * 2 ^ exponent.toNat * 10 ^ 149 := product
    _ ≤ 2 ^ 24 * 2 ^ 104 * 10 ^ 149 :=
        Nat.mul_le_mul_right _ (Nat.mul_le_mul (Nat.le_of_lt bounded) power)
    _ < 10 ^ 188 := by decide

private theorem toFloat32_finest {digits significand : Nat} {exponent : Int}
    (canonical : Canonical significand exponent) (positive : 0 < digits)
    (product : digits * 2 ^ (-exponent).toNat = significand * 2 ^ exponent.toNat * 10 ^ 149) :
    (Reading.finite digits (-149)).toFloat32 =
      encode (.finite .positive significand exponent canonical.positive) := by
  have short : (Nat.toDigits 10 digits).length ≤ 188 :=
    (Nat.length_toDigits_le_iff (by decide) (by decide)).mpr (digits_lt canonical product)
  have notAbove : ¬ highestPlace < magnitude digits (-149) := by
    unfold highestPlace magnitude
    omega
  have notBelow : ¬ magnitude digits (-149) < -highestPlace := by
    unfold highestPlace magnitude
    omega
  unfold Reading.toFloat32
  dsimp only
  rw [if_neg (Nat.ne_of_gt positive), if_neg notAbove, if_neg notBelow]
  exact ofScientific_exact canonical positive (by decide) (by decide) product

/-! ## Reading -/

theorem digit_cases {character : Char} (digit : character.isDigit = true) :
    48 ≤ character.toNat ∧ character.toNat ≤ 57 := by
  unfold Char.isDigit at digit
  rw [Bool.and_eq_true, decide_eq_true_eq, decide_eq_true_eq] at digit
  exact digit

theorem ne_of_isDigit {character other : Char} (digit : character.isDigit = true)
    (noDigit : other.isDigit = false) : character ≠ other := by
  intro same
  rw [same, noDigit] at digit
  cases digit

private theorem toLower_of_isDigit {character : Char} (digit : character.isDigit = true) :
    character.toLower = character := by
  have code := digit_cases digit
  unfold Char.toLower
  rw [dif_neg]
  intro upper
  have above : 65 ≤ character.toNat := upper.1
  omega

private theorem takeSign_of_starts {first : Char} (digit : first.isDigit = true)
    (rest : List Char) :
    takeSign (first :: rest) = (false, first :: rest) := by
  unfold takeSign
  split
  · rename_i same
    cases same
    cases digit
  · rename_i same
    cases same
    cases digit
  · rfl

private theorem toLower_ne_word {first : Char} (digit : first.isDigit = true) (rest : List Char)
    {head : Char} {tail : List Char} (noDigit : head.isDigit = false) :
    (first :: rest).map Char.toLower ≠ head :: tail := by
  intro same
  rw [List.map_cons, toLower_of_isDigit digit] at same
  exact ne_of_isDigit digit noDigit (List.cons.inj same).1

private theorem read?_of_digits {text rest : List Char} {negative : Bool} {first : Char}
    (signed : takeSign text = (negative, first :: rest)) (digit : first.isDigit = true) :
    read? text = (readDigits? (first :: rest)).map (⟨negative, ·⟩) := by
  have inf : (first :: rest).map Char.toLower ≠ "inf".toList :=
    toLower_ne_word digit rest rfl
  have infinity : (first :: rest).map Char.toLower ≠ "infinity".toList :=
    toLower_ne_word digit rest rfl
  have nan : (first :: rest).map Char.toLower ≠ "nan".toList :=
    toLower_ne_word digit rest rfl
  unfold read?
  rw [signed]
  dsimp only
  rw [if_neg fun word => word.elim inf infinity, if_neg nan]

private theorem readFloat32?_of_starts {first : Char} (digit : first.isDigit = true)
    (rest : List Char) :
    readFloat32? (first :: rest) = (readDigits? (first :: rest)).map Reading.toFloat32 := by
  unfold readFloat32?
  rw [read?_of_digits (takeSign_of_starts digit rest) digit, Option.map_map]
  rfl

private theorem readFloat32?_minus {first : Char} (digit : first.isDigit = true)
    (rest : List Char) :
    readFloat32? ('-' :: first :: rest) = (readFloat32? (first :: rest)).map (-·) := by
  have signed : takeSign ('-' :: first :: rest) = (true, first :: rest) := rfl
  rw [readFloat32?_of_starts digit, Option.map_map]
  unfold readFloat32?
  rw [read?_of_digits signed digit, Option.map_map]
  rfl

private theorem readFloat32?_finest {digits significand : Nat} {exponent : Int}
    (canonical : Canonical significand exponent) (positive : 0 < digits)
    (product : digits * 2 ^ (-exponent).toNat = significand * 2 ^ exponent.toNat * 10 ^ 149) :
    readFloat32? (positional digits (-149)) =
      some (encode (.finite .positive significand exponent canonical.positive)) := by
  obtain ⟨first, rest, text, digit⟩ := positional_starts digits (-149)
  have places : 0 < 149 := by decide
  have read := readDigits?_positional places digits
  change readDigits? (positional digits (-149)) = some (.finite digits (-149)) at read
  rw [text] at read ⊢
  rw [readFloat32?_of_starts digit, read]
  exact congrArg some (toFloat32_finest canonical positive product)

/-! ## The shortest decimal -/

private theorem readsBack_of_shortest {value : Float32} {decimal : Nat × Int}
    (found : shortest value = some decimal) : readsBack value decimal = true := by
  obtain ⟨power, -, here⟩ := List.exists_of_findSome?_eq_some found
  exact List.find?_some here

/-- Something is found for every positive number. -/
theorem shortest_isSome {value : Float32} (finite : value.isFinite = true)
    (positive : 0 < place value) : (shortest value).isSome = true := by
  have number := (isFinite_iff_place.mp finite).1
  obtain ⟨significand, exponent, canonical, meant, dyadic⟩ :=
    finite_cases finite (Int.ne_of_gt positive)
  have above : sign value = .positive := by
    unfold place at positive
    cases signed : sign value with
    | positive => rfl
    | negative =>
        rw [signed, Sign.apply] at positive
        omega
  obtain ⟨digits, product⟩ := scaled_exact canonical.least
  have digitsPositive : 0 < digits := by
    apply Nat.pos_of_ne_zero
    rintro rfl
    have nonzero : 0 < significand * 2 ^ exponent.toNat * 10 ^ 149 :=
      Nat.mul_pos (Nat.mul_pos canonical.positive (Nat.two_pow_pos _)) (Nat.pow_pos (by decide))
    rw [← product, Nat.zero_mul] at nonzero
    exact Nat.lt_irrefl 0 nonzero
  have same : encode (.finite .positive significand exponent canonical.positive) = value := by
    rw [← above, ← meant]
    exact encode_meaning value
  have back : readsBack value (digits, -149) = true := by
    unfold readsBack
    dsimp only
    rw [readFloat32?_finest canonical digitsPositive product, same]
    exact beq_iff.mpr ⟨number, number, rfl⟩
  unfold shortest
  rw [List.findSome?_isSome_iff]
  refine ⟨-149, List.mem_map.mpr ⟨187, by simp, rfl⟩, ?_⟩
  rw [dyadic, neighbours_finest product digitsPositive, List.find?_cons_of_pos back]
  rfl

private theorem readFloat32?_magnitudeText {value : Float32} (finite : value.isFinite = true)
    (positive : 0 < place value) :
    ∃ first rest, magnitudeText value = first :: rest ∧ first.isDigit = true ∧
      readFloat32? (first :: rest) = some value := by
  obtain ⟨⟨digits, power⟩, found⟩ :=
    Option.isSome_iff_exists.mp (shortest_isSome finite positive)
  obtain ⟨first, rest, text, digit⟩ := positional_starts digits power
  have back := readsBack_of_shortest found
  unfold readsBack at back
  rw [text] at back
  refine ⟨first, rest, ?_, digit, ?_⟩
  · unfold magnitudeText
    rw [found, Option.elim_some]
    exact text
  · cases read : readFloat32? (first :: rest) with
    | none =>
        rw [read, Option.none_beq_some] at back
        cases back
    | some other =>
        rw [read, Option.some_beq_some] at back
        obtain ⟨-, -, same⟩ := beq_iff.mp back
        rw [eq_of_place same (same ▸ Int.ne_of_gt positive)]

/-! ## The text of a number -/

private theorem isDigit_or_point_of_mem_magnitudeText {value : Float32} {character : Char}
    (member : character ∈ magnitudeText value) :
    character.isDigit = true ∨ character = '.' := by
  unfold magnitudeText at member
  rcases Option.eq_none_or_eq_some (shortest value) with none | ⟨decimal, found⟩
  · rw [none, Option.elim_none] at member
    cases member
  · rw [found, Option.elim_some] at member
    exact isDigit_or_point_of_mem_positional member

theorem mem_toText {value : Float32} (finite : value.isFinite = true) {character : Char}
    (member : character ∈ toText value) :
    character.isDigit = true ∨ character = '.' ∨ character = '-' := by
  unfold toText at member
  rw [(isFinite_iff_place.mp finite).1, if_neg Bool.false_ne_true, finite] at member
  dsimp only at member
  rw [Bool.not_true, if_neg Bool.false_ne_true] at member
  have minus : ∀ {negative : Bool}, character ∈ (if negative = true then ['-'] else []) →
      character = '-' := by
    rintro (_ | _) member
    · cases member
    · exact List.mem_singleton.mp member
  by_cases zero : (value == 0) = true
  · rw [if_pos zero, List.mem_append, List.mem_singleton] at member
    rcases member with signed | rfl
    · exact .inr (.inr (minus signed))
    · exact .inl (by decide)
  · rw [if_neg zero, List.mem_append] at member
    rcases member with signed | digits
    · exact .inr (.inr (minus signed))
    · exact (isDigit_or_point_of_mem_magnitudeText digits).imp_right .inl

private theorem ofFloat32_negative (value : Float32) :
    (Dyadic.ofFloat32 value).negative = (sign value == .negative) := by
  have field : (Dyadic.ofFloat32 value).negative = (signField value == 1) := by
    unfold Dyadic.ofFloat32
    dsimp only
    split <;> rfl
  have bound := value.toBits.toNat_lt
  have cases : signField value = 0 ∨ signField value = 1 := by
    unfold signField
    omega
  rw [field]
  unfold sign
  rcases cases with zero | one
  · rw [zero]
    rfl
  · rw [one]
    rfl

private theorem eq_of_zero {value : Float32} (zero : place value = 0) :
    value = encode (.zero (sign value)) := by
  have fields : exponentField value = 0 ∧ fractionField value = 0 := by
    unfold place Sign.apply at zero
    split at zero <;> omega
  have read := meaning_eq value
  rw [fields.1, if_neg (by decide), if_pos rfl, dif_pos fields.2] at read
  rw [← read, encode_meaning]

private theorem place_encode {significand : Nat} {exponent : Int}
    (canonical : Canonical significand exponent) :
    (encode (.finite .positive significand exponent canonical.positive)).isFinite = true ∧
      0 < place (encode (.finite .positive significand exponent canonical.positive)) := by
  have meant := meaning_encode canonical .positive
  have finite : (meaning (encode (.finite .positive significand exponent
      canonical.positive))).isFinite = true := by
    rw [meant]
    rfl
  refine ⟨finite, ?_⟩
  rcases meaning_cases (isFinite_iff_place.mp finite).1 with
    ⟨_, reads, -⟩ | ⟨_, reads, -⟩ | ⟨_, _, _, _, reads, legal, placed⟩
  · rw [meant] at reads
    cases reads
  · rw [meant] at reads
    cases reads
  · rw [meant] at reads
    cases reads
    rw [placed]
    exact legal.place_positive

/-- The text of a finite number is read back as that number. -/
theorem readFloat32?_toText {value : Float32} (finite : value.isFinite = true) :
    readFloat32? (toText value) = some value := by
  have number := (isFinite_iff_place.mp finite).1
  unfold toText
  rw [number, if_neg Bool.false_ne_true, finite, ofFloat32_negative]
  dsimp only
  rw [Bool.not_true, if_neg Bool.false_ne_true]
  by_cases zero : (value == 0) = true
  · rw [if_pos zero]
    have placed := (beq_iff.mp zero).2.2
    rw [place_zero] at placed
    rw [eq_of_zero placed]
    cases sign value with
    | positive => decide +kernel
    | negative => decide +kernel
  · rw [if_neg zero]
    have nonzero : place value ≠ 0 := by
      intro placed
      exact zero (beq_iff.mpr ⟨number, zero_isNaN, placed.trans place_zero.symm⟩)
    obtain ⟨significand, exponent, canonical, meant, -⟩ := finite_cases finite nonzero
    have magnitude : value.abs =
        encode (.finite .positive significand exponent canonical.positive) := by
      change encode (meaning value).abs = _
      rw [meant]
      rfl
    obtain ⟨magnitudeFinite, positive⟩ := place_encode canonical
    obtain ⟨first, rest, text, digit, read⟩ :=
      readFloat32?_magnitudeText magnitudeFinite positive
    rw [magnitude, text]
    cases signed : sign value with
    | positive =>
        have same : value = encode (.finite .positive significand exponent canonical.positive) := by
          rw [← signed, ← meant, encode_meaning]
        rw [same]
        exact read
    | negative =>
        have same : value =
            -encode (.finite .positive significand exponent canonical.positive) := by
          change _ = encode (meaning (encode _)).neg
          rw [meaning_encode canonical]
          change _ = encode (.finite .negative significand exponent canonical.positive)
          rw [← encode_meaning value, meant]
          simp only [signed]
        rw [same]
        change readFloat32? ('-' :: first :: rest) = _
        rw [readFloat32?_minus digit, read]
        rfl

end Grove.Decimal
