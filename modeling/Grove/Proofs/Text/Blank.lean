import Grove.Text.Blank

/-!
# Trimmed text

Trimming at the end is read from the front, character by character. From there the two ways of
trimming commute, trimming is idempotent, and a text is left alone exactly when it has no blank at
either end.
-/

set_option autoImplicit false

namespace Grove.Text

theorem trimEnd_cons (character : Char) (rest : List Char) :
    trimEnd (character :: rest) =
      if isBlank character = true ∧ trimEnd rest = [] then [] else character :: trimEnd rest := by
  unfold trimEnd
  rw [List.reverse_cons, List.dropWhile_append]
  by_cases nothing : rest.reverse.dropWhile isBlank = []
  · cases blank : isBlank character <;> simp [nothing, blank]
  · simp [nothing]

@[simp] theorem trimEnd_nil : trimEnd [] = [] :=
  rfl

theorem trimEnd_cons_of_not_blank {character : Char} (dark : isBlank character = false)
    (rest : List Char) : trimEnd (character :: rest) = character :: trimEnd rest := by
  simp [trimEnd_cons, dark]

theorem trimEnd_append_cons {mark : Char} (dark : isBlank mark = false) (left right : List Char) :
    trimEnd (left ++ mark :: right) = left ++ mark :: trimEnd right := by
  induction left with
  | nil => exact trimEnd_cons_of_not_blank dark right
  | cons character left ih => simp [trimEnd_cons, ih]

theorem trimEnd_append_of_blank {blanks : List Char} (blank : trimEnd blanks = [])
    (text : List Char) : trimEnd (text ++ blanks) = trimEnd text := by
  have dropped : blanks.reverse.dropWhile isBlank = [] := List.reverse_eq_nil_iff.mp blank
  simp [trimEnd, List.dropWhile_append, dropped]

theorem trimStart_cons_of_blank {character : Char} (blank : isBlank character = true)
    (rest : List Char) : trimStart (character :: rest) = trimStart rest := by
  simp [trimStart, blank]

theorem trimStart_cons_of_not_blank {character : Char} (dark : isBlank character = false)
    (rest : List Char) : trimStart (character :: rest) = character :: rest := by
  simp [trimStart, dark]

theorem trimStart_append_cons {left : List Char} {mark : Char}
    (darkLeft : ∀ character ∈ left, isBlank character = false) (dark : isBlank mark = false)
    (right : List Char) : trimStart (left ++ mark :: right) = left ++ mark :: right := by
  cases left with
  | nil => exact trimStart_cons_of_not_blank dark right
  | cons character left =>
      exact trimStart_cons_of_not_blank (darkLeft character List.mem_cons_self) _

theorem trimStart_trimEnd (text : List Char) : trimStart (trimEnd text) = trim text := by
  unfold trim
  induction text with
  | nil => rfl
  | cons character rest ih =>
      cases blank : isBlank character with
      | false =>
          rw [trimEnd_cons_of_not_blank blank, trimStart_cons_of_not_blank blank,
            trimStart_cons_of_not_blank blank, trimEnd_cons_of_not_blank blank]
      | true =>
          rw [trimStart_cons_of_blank blank, ← ih, trimEnd_cons]
          by_cases nothing : trimEnd rest = []
          · simp [blank, nothing]
          · simp [nothing, trimStart_cons_of_blank blank]

theorem trimStart_trimStart (text : List Char) : trimStart (trimStart text) = trimStart text := by
  induction text with
  | nil => rfl
  | cons character rest ih =>
      cases blank : isBlank character with
      | false => simp only [trimStart_cons_of_not_blank blank]
      | true => rw [trimStart_cons_of_blank blank, ih]

theorem trimEnd_eq_reverse (text : List Char) :
    trimEnd text = (trimStart text.reverse).reverse :=
  rfl

theorem trimEnd_trimEnd (text : List Char) : trimEnd (trimEnd text) = trimEnd text := by
  rw [trimEnd_eq_reverse (trimEnd text), trimEnd_eq_reverse text, List.reverse_reverse,
    trimStart_trimStart]

theorem trim_trimEnd (text : List Char) : trim (trimEnd text) = trim text := by
  rw [← trimStart_trimEnd, trimEnd_trimEnd, trimStart_trimEnd]

theorem trimStart_trim (text : List Char) : trimStart (trim text) = trim text := by
  rw [← trimStart_trimEnd, trimStart_trimStart]

theorem trimEnd_trim (text : List Char) : trimEnd (trim text) = trim text :=
  trimEnd_trimEnd (trimStart text)

theorem mem_of_mem_trimEnd {text : List Char} {character : Char}
    (member : character ∈ trimEnd text) : character ∈ text := by
  have kept := (List.dropWhile_sublist isBlank).subset (List.mem_reverse.mp member)
  exact List.mem_reverse.mp kept

theorem mem_of_mem_trim {text : List Char} {character : Char} (member : character ∈ trim text) :
    character ∈ text :=
  (List.dropWhile_sublist isBlank).subset (mem_of_mem_trimEnd member)

theorem trimStart_eq_self_iff (text : List Char) :
    trimStart text = text ↔ ∀ first, text.head? = some first → isBlank first = false := by
  cases text with
  | nil => simp [trimStart]
  | cons first rest =>
      constructor
      · rintro same _ ⟨⟩
        cases blank : isBlank first with
        | false => rfl
        | true =>
            have shorter : (trimStart rest).length ≤ rest.length :=
              (List.dropWhile_sublist isBlank).length_le
            rw [← trimStart_cons_of_blank blank, same, List.length_cons] at shorter
            omega
      · intro dark
        exact trimStart_cons_of_not_blank (dark first rfl) rest

theorem trimEnd_eq_self_iff (text : List Char) :
    trimEnd text = text ↔ ∀ last, text.getLast? = some last → isBlank last = false := by
  rw [← List.head?_reverse, ← trimStart_eq_self_iff]
  rw [trimEnd_eq_reverse, List.reverse_eq_iff]

/-- Trimming leaves a text as it is exactly when no blank stands at its ends. -/
theorem trim_eq_self_iff (text : List Char) :
    trim text = text ↔
      (∀ first, text.head? = some first → isBlank first = false) ∧
        ∀ last, text.getLast? = some last → isBlank last = false := by
  rw [← trimStart_eq_self_iff, ← trimEnd_eq_self_iff]
  constructor
  · intro same
    exact ⟨by rw [← same, trimStart_trim], by rw [← same, trimEnd_trim]⟩
  · rintro ⟨start, finish⟩
    rw [trim, start, finish]

theorem trim_of_not_blank {text : List Char}
    (dark : ∀ character ∈ text, isBlank character = false) :
    trim text = text :=
  (trim_eq_self_iff text).mpr
    ⟨fun _ first => dark _ (List.mem_of_head? first),
      fun _ last => dark _ (List.mem_of_getLast? last)⟩

end Grove.Text
