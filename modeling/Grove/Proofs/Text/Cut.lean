import Grove.Text.Cut

/-!
# Pieces of text

Where the first line feed, mark or arrow stands decides how a text is cut, and the pieces hold no
characters that the text does not hold.
-/

set_option autoImplicit false

namespace Grove.Text

/-! ## Lines -/

theorem lines_nil : lines [] = [[]] := rfl

theorem lines_feed (rest : List Char) : lines ('\n' :: rest) = [] :: lines rest := rfl

theorem lines_cons {character : Char} (other : character ≠ '\n') {rest piece : List Char}
    {pieces : List (List Char)} (cut : lines rest = piece :: pieces) :
    lines (character :: rest) = (character :: piece) :: pieces := by
  rw [lines, cut]
  exact other

theorem exists_lines (text : List Char) : ∃ piece pieces, lines text = piece :: pieces := by
  induction text with
  | nil => exact ⟨[], [], rfl⟩
  | cons character rest ih =>
      obtain ⟨piece, pieces, cut⟩ := ih
      by_cases feed : character = '\n'
      · exact ⟨[], lines rest, by rw [feed, lines_feed]⟩
      · exact ⟨character :: piece, pieces, lines_cons feed cut⟩

theorem lines_append_of_oneLine {line : List Char} (oneLine : '\n' ∉ line)
    {rest piece : List Char} {pieces : List (List Char)} (cut : lines rest = piece :: pieces) :
    lines (line ++ rest) = (line ++ piece) :: pieces := by
  induction line with
  | nil => exact cut
  | cons character line ih =>
      obtain ⟨other, oneLine⟩ := not_or.mp (mt List.mem_cons.mpr oneLine)
      exact lines_cons (Ne.symm other) (ih oneLine)

theorem lines_append {line : List Char} (oneLine : '\n' ∉ line) (rest : List Char) :
    lines (line ++ '\n' :: rest) = line :: lines rest := by
  rw [lines_append_of_oneLine oneLine (lines_feed rest), List.append_nil]

/-- A line feed ends a line, whatever the lines before it. -/
theorem lines_append_feed (first second : List Char) :
    lines (first ++ '\n' :: second) = lines first ++ lines second := by
  induction first with
  | nil => rw [List.nil_append, lines_feed, lines_nil, List.singleton_append]
  | cons character first ih =>
      by_cases feed : character = '\n'
      · subst feed
        rw [List.cons_append, lines_feed, lines_feed, ih, List.cons_append]
      · obtain ⟨piece, pieces, cut⟩ := exists_lines first
        rw [cut, List.cons_append] at ih
        rw [List.cons_append, lines_cons feed ih, lines_cons feed cut, List.cons_append]

theorem length_lines (text : List Char) : (lines text).length = text.count '\n' + 1 := by
  induction text with
  | nil => rfl
  | cons character rest ih =>
      by_cases feed : character = '\n'
      · subst feed
        rw [lines_feed, List.length_cons, ih, List.count_cons_self]
      · obtain ⟨piece, pieces, cut⟩ := exists_lines rest
        rw [lines_cons feed cut, List.count_cons_of_ne feed, ← ih, cut]
        rfl

theorem lines_of_oneLine {line : List Char} (oneLine : '\n' ∉ line) : lines line = [line] := by
  have whole := lines_append_of_oneLine oneLine lines_nil
  rwa [List.append_nil] at whole

theorem not_mem_of_mem_lines {text line : List Char} (member : line ∈ lines text) :
    '\n' ∉ line := by
  induction text generalizing line with
  | nil =>
      rw [lines_nil, List.mem_singleton] at member
      simp [member]
  | cons character rest ih =>
      by_cases feed : character = '\n'
      · rw [feed, lines_feed, List.mem_cons] at member
        rcases member with rfl | member
        · exact List.not_mem_nil
        · exact ih member
      · obtain ⟨piece, pieces, cut⟩ := exists_lines rest
        rw [lines_cons feed cut, List.mem_cons] at member
        rw [cut] at ih
        rcases member with rfl | member
        · simpa [Ne.symm feed] using ih List.mem_cons_self
        · exact ih (List.mem_cons_of_mem piece member)

theorem mem_of_mem_lines {text line : List Char} (member : line ∈ lines text) {character : Char}
    (within : character ∈ line) : character ∈ text := by
  induction text generalizing line with
  | nil =>
      rw [lines_nil, List.mem_singleton] at member
      subst member
      cases within
  | cons first rest ih =>
      by_cases feed : first = '\n'
      · rw [feed, lines_feed, List.mem_cons] at member
        rcases member with rfl | member
        · cases within
        · exact List.mem_cons_of_mem first (ih member within)
      · obtain ⟨piece, pieces, cut⟩ := exists_lines rest
        rw [lines_cons feed cut, List.mem_cons] at member
        rw [cut] at ih
        rcases member with rfl | member
        · obtain rfl | within := List.mem_cons.mp within
          · exact List.mem_cons_self
          · exact List.mem_cons_of_mem first (ih List.mem_cons_self within)
        · exact List.mem_cons_of_mem first (ih (List.mem_cons_of_mem piece member) within)

/-! ## Marks -/

theorem cutAt?_append {mark : Char} {left : List Char} (absent : mark ∉ left)
    (right : List Char) : cutAt? mark (left ++ mark :: right) = some (left, right) := by
  induction left with
  | nil => simp [cutAt?]
  | cons character left ih =>
      obtain ⟨other, absent⟩ := not_or.mp (mt List.mem_cons.mpr absent)
      simp [cutAt?, Ne.symm other, ih absent]

theorem cutAt?_eq_none {mark : Char} {text : List Char} (absent : mark ∉ text) :
    cutAt? mark text = none := by
  induction text with
  | nil => rfl
  | cons character rest ih =>
      obtain ⟨other, absent⟩ := not_or.mp (mt List.mem_cons.mpr absent)
      simp [cutAt?, Ne.symm other, ih absent]

theorem append_of_cutAt? {mark : Char} {text left right : List Char}
    (cut : cutAt? mark text = some (left, right)) : text = left ++ mark :: right := by
  induction text generalizing left with
  | nil => simp [cutAt?] at cut
  | cons character rest ih =>
      rw [cutAt?] at cut
      split at cut
      · obtain ⟨rfl, rfl⟩ := cut
        simp [*]
      · obtain ⟨⟨before, after⟩, found, same⟩ := Option.map_eq_some_iff.mp cut
        obtain ⟨rfl, rfl⟩ := Prod.mk.injEq .. ▸ same
        rw [ih found, List.cons_append]

theorem append_of_cutAtArrow? {text left right : List Char}
    (cut : cutAtArrow? text = some (left, right)) : text = left ++ '-' :: '>' :: right := by
  induction text using cutAtArrow?.induct generalizing left with
  | case1 => simp [cutAtArrow?] at cut
  | case2 rest =>
      rw [cutAtArrow?] at cut
      obtain ⟨rfl, rfl⟩ := cut
      rfl
  | case3 character rest other ih =>
      rw [cutAtArrow?] at cut
      · obtain ⟨⟨before, after⟩, found, same⟩ := Option.map_eq_some_iff.mp cut
        obtain ⟨rfl, rfl⟩ := Prod.mk.injEq .. ▸ same
        rw [ih found, List.cons_append]
      · exact other

end Grove.Text
