import Grove.Decimal.Shortest

/-!
# Positional notation

A decimal that is written in positional notation starts with a digit, is made of digits and at most
a point, and is read as the same decimal.
-/

set_option autoImplicit false

namespace Grove.Decimal

private theorem digitsValue_toDigits (digits : Nat) :
    digitsValue (Nat.toDigits 10 digits) = digits :=
  Nat.ofDigitChars_ten_toDigits

private theorem digitsValue_zeros_append (count : Nat) (written : List Char) :
    digitsValue (List.replicate count '0' ++ written) = digitsValue written := by
  have value : ∀ text, digitsValue text = Nat.ofDigitChars 10 text 0 := fun _ => rfl
  rw [value, value, Nat.ofDigitChars_append, Nat.ofDigitChars_replicate_zero, Nat.mul_zero]

private theorem isDigit_of_mem_toDigits {digits : Nat} {character : Char}
    (member : character ∈ Nat.toDigits 10 digits) : character.isDigit = true :=
  Nat.isDigit_of_mem_toDigits (by decide) (by decide) member

private theorem isDigit_of_mem_zeros {count : Nat} {character : Char}
    (member : character ∈ List.replicate count '0') : character.isDigit = true := by
  rw [List.eq_of_mem_replicate member]
  decide

/-- The digits of a decimal with so many places, with zeros in front so that one stands before the
point. -/
def padded (digits places : Nat) : List Char :=
  List.replicate (places + 1 - (Nat.toDigits 10 digits).length) '0' ++ Nat.toDigits 10 digits

private theorem isDigit_of_mem_padded {digits places : Nat} {character : Char}
    (member : character ∈ padded digits places) : character.isDigit = true := by
  rcases List.mem_append.mp member with zero | digit
  · exact isDigit_of_mem_zeros zero
  · exact isDigit_of_mem_toDigits digit

private theorem lt_length_padded (digits places : Nat) :
    places < (padded digits places).length := by
  unfold padded
  rw [List.length_append, List.length_replicate]
  omega

def wholePart (digits places : Nat) : List Char :=
  (padded digits places).take ((padded digits places).length - places)

def fractionPart (digits places : Nat) : List Char :=
  (padded digits places).drop ((padded digits places).length - places)

private theorem positional_of_places {places : Nat} (positive : 0 < places) (digits : Nat) :
    positional digits (-(places : Int)) =
      wholePart digits places ++ '.' :: fractionPart digits places := by
  have negative : ¬ 0 ≤ -(places : Int) := by omega
  have count : (- -(places : Int)).toNat = places := by omega
  unfold positional
  rw [if_neg negative, count]
  rfl

private theorem positional_of_nonneg {power : Int} (nonneg : 0 ≤ power) (digits : Nat) :
    positional digits power = Nat.toDigits 10 digits ++ List.replicate power.toNat '0' := by
  unfold positional
  rw [if_pos nonneg]

private theorem wholePart_ne_nil (digits places : Nat) : wholePart digits places ≠ [] := by
  have longer := lt_length_padded digits places
  have length : (wholePart digits places).length = (padded digits places).length - places :=
    List.length_take_of_le (by omega)
  intro nothing
  rw [nothing, List.length_nil] at length
  omega

private theorem length_fractionPart (digits places : Nat) :
    (fractionPart digits places).length = places := by
  have longer := lt_length_padded digits places
  unfold fractionPart
  rw [List.length_drop]
  omega

private theorem isDigit_of_mem_wholePart {digits places : Nat} {character : Char}
    (member : character ∈ wholePart digits places) : character.isDigit = true :=
  isDigit_of_mem_padded (List.mem_of_mem_take member)

private theorem isDigit_of_mem_fractionPart {digits places : Nat} {character : Char}
    (member : character ∈ fractionPart digits places) : character.isDigit = true :=
  isDigit_of_mem_padded (List.mem_of_mem_drop member)

private theorem power_cases (power : Int) :
    0 ≤ power ∨ ∃ places : Nat, 0 < places ∧ power = -places := by
  rcases Int.lt_or_le power 0 with negative | nonneg
  · exact .inr ⟨power.natAbs, by omega, by omega⟩
  · exact .inl nonneg

theorem isDigit_or_point_of_mem_positional {digits : Nat} {power : Int} {character : Char}
    (member : character ∈ positional digits power) :
    character.isDigit = true ∨ character = '.' := by
  rcases power_cases power with nonneg | ⟨places, positive, rfl⟩
  · rw [positional_of_nonneg nonneg] at member
    rcases List.mem_append.mp member with digit | zero
    · exact .inl (isDigit_of_mem_toDigits digit)
    · exact .inl (isDigit_of_mem_zeros zero)
  · rw [positional_of_places positive] at member
    rcases List.mem_append.mp member with whole | rest
    · exact .inl (isDigit_of_mem_wholePart whole)
    · rcases List.mem_cons.mp rest with point | fraction
      · exact .inr point
      · exact .inl (isDigit_of_mem_fractionPart fraction)

theorem positional_starts (digits : Nat) (power : Int) :
    ∃ first rest, positional digits power = first :: rest ∧ first.isDigit = true := by
  have start : ∀ {digitsOnly rest : List Char}, digitsOnly ≠ [] →
      (∀ character ∈ digitsOnly, character.isDigit = true) →
      ∃ first others, digitsOnly ++ rest = first :: others ∧ first.isDigit = true := by
    intro digitsOnly rest nonempty allDigits
    obtain ⟨first, others, rfl⟩ := List.exists_cons_of_ne_nil nonempty
    exact ⟨first, others ++ rest, rfl, allDigits first (List.mem_cons_self ..)⟩
  rcases power_cases power with nonneg | ⟨places, positive, rfl⟩
  · rw [positional_of_nonneg nonneg]
    exact start Nat.toDigits_ne_nil fun _ => isDigit_of_mem_toDigits
  · rw [positional_of_places positive]
    exact start (wholePart_ne_nil digits places) fun _ => isDigit_of_mem_wholePart

theorem readDigits?_positional {places : Nat} (positive : 0 < places) (digits : Nat) :
    readDigits? (positional digits (-(places : Int))) = some (.finite digits (-places)) := by
  have whole : ∀ character ∈ wholePart digits places, character.isDigit = true :=
    fun _ => isDigit_of_mem_wholePart
  have fraction : ∀ character ∈ fractionPart digits places, character.isDigit = true :=
    fun _ => isDigit_of_mem_fractionPart
  have before : (wholePart digits places ++ '.' :: fractionPart digits places).takeWhile
      Char.isDigit = wholePart digits places := by
    rw [List.takeWhile_append_of_pos whole, List.takeWhile_cons_of_neg (by decide),
      List.append_nil]
  have after : (wholePart digits places ++ '.' :: fractionPart digits places).dropWhile
      Char.isDigit = '.' :: fractionPart digits places := by
    rw [List.dropWhile_append_of_pos whole, List.dropWhile_cons_of_neg (by decide)]
  have all : (fractionPart digits places).takeWhile Char.isDigit = fractionPart digits places := by
    rw [← List.append_nil (fractionPart digits places), List.takeWhile_append_of_pos fraction,
      List.takeWhile_nil]
  have nothing : (fractionPart digits places).dropWhile Char.isDigit = [] := by
    rw [← List.append_nil (fractionPart digits places), List.dropWhile_append_of_pos fraction,
      List.dropWhile_nil]
  have value : digitsValue (wholePart digits places ++ fractionPart digits places) = digits := by
    unfold wholePart fractionPart
    rw [List.take_append_drop]
    unfold padded
    rw [digitsValue_zeros_append, digitsValue_toDigits]
  unfold readDigits?
  rw [positional_of_places positive, before, after]
  simp only [all, nothing]
  rw [if_neg fun empty => wholePart_ne_nil digits places empty.1]
  change some (Reading.finite (digitsValue (wholePart digits places ++ fractionPart digits places))
    (0 - (fractionPart digits places).length)) = _
  rw [value, length_fractionPart, Int.zero_sub]

end Grove.Decimal
