import Grove.Proofs.Grammar.Text

/-!
# Words behind backslashes

A rule can be written with a backslash before its symbol and before every character of its
replacement. Cutting at bars respects the backslashes, but two steps of the reader do not: the first
colon ends the weight also behind a backslash, and a blank at the end of the line is trimmed from
behind its backslash. So a word is read from this text exactly if it has no colon and does not end
with a blank; in the other cases the reader refuses the line.
-/

set_option autoImplicit false

namespace Grove

open Text

namespace RuleText

/-- A text with a backslash before every character. -/
def literal (text : List Char) : List Char :=
  text.flatMap fun character => ['\\', character]

/-- The line that gives a symbol one replacement, with a backslash before every character. -/
def literalRule (symbol : Symbol) (word : Word) : List Char :=
  literal [symbol] ++ " -> ".toList ++ literal word

@[simp] theorem literal_nil : literal [] = [] :=
  rfl

private theorem literal_cons (character : Char) (text : List Char) :
    literal (character :: text) = '\\' :: character :: literal text :=
  rfl

private theorem literal_append (first second : List Char) :
    literal (first ++ second) = literal first ++ literal second :=
  List.flatMap_append

private theorem mem_literal {text : List Char} {character : Char}
    (member : character ∈ literal text) :
    character = '\\' ∨ character ∈ text := by
  obtain ⟨source, inside, member⟩ := List.mem_flatMap.mp member
  simp only [List.mem_cons, List.not_mem_nil, or_false] at member
  rcases member with rfl | rfl
  · exact .inl rfl
  · exact .inr inside

private theorem unescape_literal_append (text rest : List Char) :
    unescape (literal text ++ rest) = (unescape rest).map (text ++ ·) := by
  induction text with
  | nil =>
      rw [literal_nil, List.nil_append]
      cases unescape rest <;> rfl
  | cons character text ih =>
      rw [literal_cons, List.cons_append, List.cons_append, unescape, ih]
      cases unescape rest <;> rfl

private theorem cutAtBars_literal_append {rest piece : List Char} {pieces : List (List Char)}
    (text : List Char) (cut : cutAtBars rest = piece :: pieces) :
    cutAtBars (literal text ++ rest) = (literal text ++ piece) :: pieces := by
  induction text with
  | nil => exact cut
  | cons character text ih => simp [literal_cons, cutAtBars, ih, extendFirst]

/-! ## What trimming leaves -/

/-- The last character is trimmed away if it is blank, and its backslash stays. -/
theorem trimEnd_literal (init : List Char) (last : Char) :
    trimEnd (literal (init ++ [last])) =
      literal init ++ '\\' :: if isBlank last then [] else [last] := by
  have slash : isBlank '\\' = false := by decide
  rw [literal_append, literal_cons, trimEnd_append_cons slash]
  cases blank : isBlank last <;> simp [trimEnd_cons, blank, literal]

private theorem cutAtBars_trimEnd_literal (word : Word) :
    cutAtBars (trimEnd (literal word)) = [trimEnd (literal word)] := by
  induction word using List.reverseRecOn with
  | nil => rfl
  | append_singleton init last _ =>
      rw [trimEnd_literal]
      split
      · exact cutAtBars_literal_append init rfl
      · exact cutAtBars_literal_append init rfl

private theorem trimStart_literal (text rest : List Char) :
    trimStart (literal text ++ '\\' :: rest) = literal text ++ '\\' :: rest := by
  have slash : isBlank '\\' = false := by decide
  cases text <;> exact trimStart_cons_of_not_blank slash _

private theorem trim_trimEnd_literal (word : Word) :
    trim (' ' :: trimEnd (literal word)) = trimEnd (literal word) := by
  rw [trim, trimStart_cons_of_blank (by decide)]
  induction word using List.reverseRecOn with
  | nil => rfl
  | append_singleton init last _ =>
      rw [trimEnd_literal, trimStart_literal, ← trimEnd_literal, trimEnd_trimEnd]

/-! ## What is read -/

/-- A weight does not begin with a backslash. -/
theorem parseWeight_of_backslash (rest : List Char) :
    parseWeight ('\\' :: rest) = .error (.badWeight ('\\' :: rest)) := by
  have none : Decimal.readFloat32? ('\\' :: rest) = none := by
    simp [Decimal.readFloat32?, Decimal.read?, Decimal.takeSign, Decimal.readDigits?]
  rw [parseWeight, none]

private theorem parseAlternative_of_colon {before after : Word} (first : ':' ∉ before) :
    parseAlternative (trimEnd (literal (before ++ ':' :: after))) =
      .error (.badWeight (literal before ++ ['\\'])) := by
  have dark : isBlank ':' = false := by decide
  have slash : isBlank '\\' = false := by decide
  have cut : trimEnd (literal (before ++ ':' :: after)) =
      (literal before ++ ['\\']) ++ ':' :: trimEnd (literal after) := by
    rw [literal_append, literal_cons, trimEnd_append_cons slash, trimEnd_cons_of_not_blank dark,
      List.append_assoc]
    rfl
  have absent : ':' ∉ literal before ++ ['\\'] := by
    intro colon
    obtain colon | colon := List.mem_append.mp colon
    · obtain colon | colon := mem_literal colon
      · cases colon
      · exact first colon
    · cases List.mem_singleton.mp colon
  have weight : trim (literal before ++ ['\\']) = literal before ++ ['\\'] := by
    rw [trim, trimStart_literal, trimEnd_append_cons slash, trimEnd_nil]
  obtain ⟨rest, starts⟩ : ∃ rest, literal before ++ ['\\'] = '\\' :: rest := by
    cases before <;> exact ⟨_, rfl⟩
  rw [cut, parseAlternative, cutAt?_append absent]
  simp only [weight]
  rw [starts, parseWeight_of_backslash]
  rfl

private theorem parseAlternative_of_no_colon {init : Word} {last : Char}
    (absent : ':' ∉ init ++ [last]) :
    parseAlternative (trimEnd (literal (init ++ [last]))) =
      if isBlank last then .error .danglingEscape else .ok ⟨1, init ++ [last]⟩ := by
  have uncut : cutAt? ':' (trimEnd (literal (init ++ [last]))) = none := by
    refine cutAt?_eq_none fun colon => ?_
    obtain colon | colon := mem_literal (mem_of_mem_trimEnd colon)
    · cases colon
    · exact absent colon
  rw [parseAlternative, uncut, trimEnd_literal]
  dsimp only
  rw [unescape_literal_append]
  split <;> rfl

private theorem trim_literalRule (symbol : Symbol) (init : Word) (last : Char) :
    trim (literalRule symbol (init ++ [last])) =
      '\\' :: symbol :: ' ' :: '-' :: '>' :: ' ' :: trimEnd (literal (init ++ [last])) := by
  have slash : isBlank '\\' = false := by decide
  have shape : literalRule symbol (init ++ [last]) =
      ('\\' :: symbol :: ' ' :: '-' :: '>' :: ' ' :: literal init) ++ '\\' :: [last] := by
    rw [literalRule, literal_append]
    rfl
  rw [trim, shape, List.cons_append, trimStart_cons_of_not_blank slash, ← List.cons_append,
    trimEnd_append_cons slash, trimEnd_literal]
  cases blank : isBlank last <;> simp [trimEnd_cons, blank]

private theorem parseSymbol_literal {symbol : Symbol} (dark : isBlank symbol = false) :
    parseSymbol ['\\', symbol, ' '] = .ok symbol := by
  have slash : isBlank '\\' = false := by decide
  have blank : isBlank ' ' = true := by decide
  have trimmed : trim ['\\', symbol, ' '] = ['\\', symbol] := by
    simp [trim, trimStart_cons_of_not_blank, trimEnd_cons, slash, dark, blank]
  rw [parseSymbol, trimmed]
  rfl

private theorem parseRule_literalRule {symbol : Symbol} (dark : isBlank symbol = false)
    (init : Word) (last : Char) :
    parseRule (trim (literalRule symbol (init ++ [last]))) =
      (parseAlternative (trimEnd (literal (init ++ [last])))).map fun production =>
        (symbol, [production]) := by
  obtain ⟨body, isBody⟩ : ∃ body, body = trimEnd (literal (init ++ [last])) := ⟨_, rfl⟩
  have cut : cutAtArrow? ('\\' :: symbol :: ' ' :: '-' :: '>' :: ' ' :: body) =
      some (['\\', symbol, ' '], ' ' :: body) := by
    simp [cutAtArrow?]
  have piece : cutAtBars (' ' :: body) = [' ' :: body] := by
    rw [cutAtBars_cons (by decide) (by decide), isBody, cutAtBars_trimEnd_literal]
    rfl
  have trimmed : trim (' ' :: body) = body := isBody ▸ trim_trimEnd_literal _
  rw [trim_literalRule, ← isBody, parseRule, cut]
  simp only [parseSymbol_literal dark, piece, List.mapM_cons, List.mapM_nil, trimmed]
  cases parseAlternative body <;> rfl

private theorem literalRule_oneLine {symbol : Symbol} {word : Word} (dark : isBlank symbol = false)
    (oneLine : '\n' ∉ word) : '\n' ∉ literalRule symbol word := by
  have other : '\n' ≠ symbol := by
    rintro rfl
    cases dark
  have absent : '\n' ∉ literal word := fun feed =>
    (mem_literal feed).elim (by decide) oneLine
  simp [literalRule, literal_cons, absent, other]

/-- The one line of a text is the first line and the only one that adds to the table. -/
theorem parse_of_line {line : List Char} (oneLine : '\n' ∉ line)
    (heard : saysNothing (trim line) = false) :
    Rules.parse line =
      match parseRule (trim line) with
      | .error problem => .error ⟨1, problem⟩
      | .ok (symbol, productions) => .ok (Rules.empty.append symbol productions) := by
  rw [Rules.parse, lines_of_oneLine oneLine, parseLines, heard, if_neg Bool.false_ne_true]
  rfl

end RuleText

/-- A word with backslashes before all of its characters is read as it is, unless it has a colon or
ends with a blank. -/
theorem Rules.parse_literalRule {symbol : Symbol} {word : Word} (dark : isBlank symbol = false)
    (some : word ≠ []) (oneLine : '\n' ∉ word) :
    Rules.parse (RuleText.literalRule symbol word) =
      if ':' ∈ word then
        .error ⟨1, .badWeight (RuleText.literal (word.takeWhile (· ≠ ':')) ++ ['\\'])⟩
      else if isBlank (word.getLast some) then .error ⟨1, .danglingEscape⟩
      else .ok (.ofList [(symbol, ⟨1, word⟩)]) := by
  obtain ⟨init, last, rfl⟩ : ∃ init last, word = init ++ [last] :=
    ⟨_, _, (List.dropLast_append_getLast some).symm⟩
  have feed : '\n' ∉ RuleText.literalRule symbol (init ++ [last]) :=
    RuleText.literalRule_oneLine dark oneLine
  have heard : RuleText.saysNothing (trim (RuleText.literalRule symbol (init ++ [last]))) =
      false := by
    rw [RuleText.trim_literalRule]
    rfl
  rw [RuleText.parse_of_line feed heard, RuleText.parseRule_literalRule dark]
  by_cases colon : ':' ∈ init ++ [last]
  · obtain ⟨before, after, same, first⟩ := List.eq_append_cons_of_mem colon
    have taken : (init ++ [last]).takeWhile (· ≠ ':') = before := by
      have plain : ∀ character ∈ before, decide (character ≠ ':') = true := by
        rintro _ member
        exact decide_eq_true fun same => first (same ▸ member)
      rw [same, List.takeWhile_append_of_pos plain]
      simp
    rw [if_pos colon, taken, same, RuleText.parseAlternative_of_colon first]
    rfl
  · rw [if_neg colon, RuleText.parseAlternative_of_no_colon colon, List.getLast_append_singleton]
    cases isBlank last <;> rfl

theorem Rules.parse_literalRule_arrow :
    isBlank '-' = false ∧ "> |->\\# F".toList ≠ [] ∧ '\n' ∉ "> |->\\# F".toList ∧
      Rules.parse (RuleText.literalRule '-' "> |->\\# F".toList) =
        .ok (.ofList [('-', ⟨1, "> |->\\# F".toList⟩)]) := by
  have dark : isBlank '-' = false := by decide
  have some : "> |->\\# F".toList ≠ [] := by decide
  have oneLine : '\n' ∉ "> |->\\# F".toList := by decide
  exact ⟨dark, some, oneLine, parse_literalRule dark some oneLine⟩

/-- A backslash does not make a colon literal, nor a blank at the end. -/
theorem Rules.parse_literalRule_refused :
    Rules.parse (RuleText.literalRule 'F' [':']) = .error ⟨1, .badWeight ['\\']⟩ ∧
      Rules.parse (RuleText.literalRule 'F' [' ']) = .error ⟨1, .danglingEscape⟩ :=
  ⟨rfl, rfl⟩

end Grove
