import Grove.Grammar.Text
import Grove.Proofs.Decimal.RoundTrip
import Grove.Proofs.Except
import Grove.Proofs.Grammar.Rules
import Grove.Proofs.Text.Blank
import Grove.Proofs.Text.Cut

/-!
# What rule text says

Whatever rule text says, the table that is read from it is well formed: its symbols are not blank,
each of them has productions, and those have proper weights and replacements on one line. The line
that is written for an entry of that kind is read back but for the blanks at the ends of the
replacements, which are trimmed.
-/

set_option autoImplicit false

namespace Grove

open Text

/-- The part of a production that rule text takes care of. -/
structure Production.WellFormed (production : Production) : Prop where
  finite : production.weight.isFinite = true
  notNegative : ¬production.weight < 0
  oneLine : '\n' ∉ production.replacement

/-- A production whose replacement has no blank at its ends. -/
structure Production.Printable (production : Production) : Prop
    extends Production.WellFormed production where
  start : ∀ first, production.replacement.head? = some first → isBlank first = false
  finish : ∀ last, production.replacement.getLast? = some last → isBlank last = false

/-- An entry whose symbol is not blank and that has productions, all of a kind. -/
structure RuleText.EntryOf (holds : Production → Prop) (entry : Symbol × List Production) :
    Prop where
  symbol : isBlank entry.1 = false
  nonempty : entry.2 ≠ []
  productions : ∀ production ∈ entry.2, holds production

/-- A table as rule text can say it. -/
def Rules.WellFormed (rules : Rules) : Prop :=
  ∀ entry ∈ rules.entries, RuleText.EntryOf Production.WellFormed entry

/-- A table that its own text says. -/
def Rules.Printable (rules : Rules) : Prop :=
  ∀ entry ∈ rules.entries, RuleText.EntryOf Production.Printable entry

/-- A production as its text is understood: the blanks around the replacement are lost. -/
def Production.trimmed (production : Production) : Production :=
  { production with replacement := trim production.replacement }

theorem Production.trimmed_eq_self_iff (production : Production) :
    production.trimmed = production ↔ trim production.replacement = production.replacement := by
  cases production
  simp [Production.trimmed]

theorem Production.printable_iff (production : Production) :
    production.Printable ↔ production.WellFormed ∧ production.trimmed = production := by
  rw [production.trimmed_eq_self_iff, trim_eq_self_iff]
  constructor
  · intro printable
    exact ⟨printable.toWellFormed, printable.start, printable.finish⟩
  · rintro ⟨proper, start, finish⟩
    exact { proper with start, finish }

instance (production : Production) : Decidable production.WellFormed :=
  decidable_of_iff
    (production.weight.isFinite = true ∧ ¬production.weight < 0 ∧ '\n' ∉ production.replacement)
    ⟨fun ⟨finite, notNegative, oneLine⟩ => ⟨finite, notNegative, oneLine⟩,
      fun proper => ⟨proper.finite, proper.notNegative, proper.oneLine⟩⟩

instance (production : Production) : Decidable production.Printable :=
  decidable_of_iff
    (production.WellFormed ∧ trim production.replacement = production.replacement)
    (by rw [production.printable_iff, production.trimmed_eq_self_iff])

instance {holds : Production → Prop} [DecidablePred holds] (entry : Symbol × List Production) :
    Decidable (RuleText.EntryOf holds entry) :=
  decidable_of_iff
    (isBlank entry.1 = false ∧ entry.2 ≠ [] ∧ ∀ production ∈ entry.2, holds production)
    ⟨fun ⟨symbol, nonempty, productions⟩ => ⟨symbol, nonempty, productions⟩,
      fun kind => ⟨kind.symbol, kind.nonempty, kind.productions⟩⟩

instance (rules : Rules) : Decidable rules.Printable :=
  inferInstanceAs (Decidable (∀ entry ∈ rules.entries, _))

def RuleText.trimmedEntry (entry : Symbol × List Production) : Symbol × List Production :=
  (entry.1, entry.2.map Production.trimmed)

theorem RuleText.map_eq_self_iff {β : Type} {change : β → β} {items : List β} :
    items.map change = items ↔ ∀ item ∈ items, change item = item := by
  have pointwise : items.map change = items.map id ↔ ∀ item ∈ items, change item = id item :=
    List.map_inj_left
  rwa [List.map_id] at pointwise

theorem RuleText.printable_entry_iff (entry : Symbol × List Production) :
    EntryOf Production.Printable entry ↔
      EntryOf Production.WellFormed entry ∧ trimmedEntry entry = entry := by
  have same : trimmedEntry entry = entry ↔
      ∀ production ∈ entry.2, production.trimmed = production := by
    rw [← map_eq_self_iff]
    exact ⟨congrArg Prod.snd, fun same => by rw [trimmedEntry, same]⟩
  rw [same]
  constructor
  · intro printable
    have both := fun production place =>
      (Production.printable_iff production).mp (printable.productions production place)
    exact ⟨⟨printable.symbol, printable.nonempty,
      fun production place => (both production place).1⟩,
      fun production place => (both production place).2⟩
  · rintro ⟨proper, same⟩
    exact ⟨proper.symbol, proper.nonempty, fun production place =>
      (Production.printable_iff production).mpr
        ⟨proper.productions production place, same production place⟩⟩

theorem Rules.printable_iff (rules : Rules) :
    rules.Printable ↔ rules.WellFormed ∧
      rules.entries.map RuleText.trimmedEntry = rules.entries := by
  simp only [Rules.Printable, Rules.WellFormed, RuleText.printable_entry_iff,
    RuleText.map_eq_self_iff]
  exact ⟨fun both => ⟨fun entry member => (both entry member).1,
    fun entry member => (both entry member).2⟩,
    fun both entry member => ⟨both.1 entry member, both.2 entry member⟩⟩

namespace RuleText

/-! ## Escapes -/

private theorem escape_cons_special {character : Char} (special : isSpecial character = true)
    (rest : List Char) : escape (character :: rest) = '\\' :: character :: escape rest := by
  simp [escape, special]

private theorem escape_cons_plain {character : Char} (plain : isSpecial character = false)
    (rest : List Char) : escape (character :: rest) = character :: escape rest := by
  simp [escape, plain]

private theorem special_cases {character : Char} (special : isSpecial character = true) :
    character = '\\' ∨ character = '|' ∨ character = '#' := by
  simpa [isSpecial, or_assoc] using special

private theorem isBlank_special {character : Char} (special : isSpecial character = true) :
    isBlank character = false := by
  rcases special_cases special with rfl | rfl | rfl <;> decide

private theorem ne_of_plain {character : Char} (plain : isSpecial character = false) :
    character ≠ '\\' ∧ character ≠ '|' ∧ character ≠ '#' := by
  simpa [isSpecial, and_assoc] using plain

private theorem escape_eq_nil_iff (text : List Char) : escape text = [] ↔ text = [] := by
  cases text with
  | nil => simp [escape]
  | cons character rest =>
      cases special : isSpecial character <;> simp [escape, special]

private theorem unescape_cons {character : Char} (other : character ≠ '\\') (rest : List Char) :
    unescape (character :: rest) = (unescape rest).map (character :: ·) := by
  cases rest <;> simp [unescape, other]

private theorem unescape_escape (text : List Char) : unescape (escape text) = .ok text := by
  induction text with
  | nil => rfl
  | cons character rest ih =>
      cases special : isSpecial character with
      | true => simp [escape_cons_special special, unescape, ih, Except.map]
      | false =>
          simp [escape_cons_plain special, unescape_cons (ne_of_plain special).1, ih, Except.map]

private theorem trimStart_escape (text : List Char) :
    trimStart (escape text) = escape (trimStart text) := by
  induction text with
  | nil => rfl
  | cons character rest ih =>
      cases special : isSpecial character with
      | true =>
          have dark := isBlank_special special
          have slash : isBlank '\\' = false := by decide
          simp [escape_cons_special special, trimStart_cons_of_not_blank, slash, dark]
      | false =>
          cases blank : isBlank character <;>
            simp [escape_cons_plain special, trimStart_cons_of_blank,
              trimStart_cons_of_not_blank, blank, ih]

theorem trimEnd_escape (text : List Char) : trimEnd (escape text) = escape (trimEnd text) := by
  induction text with
  | nil => rfl
  | cons character rest ih =>
      cases special : isSpecial character with
      | true =>
          have dark := isBlank_special special
          have slash : isBlank '\\' = false := by decide
          simp [escape_cons_special special, trimEnd_cons_of_not_blank, slash, dark, ih]
      | false =>
          simp only [escape_cons_plain special, trimEnd_cons, ih, escape_eq_nil_iff]
          split
          · rfl
          · rw [escape_cons_plain special]

/-- Blanks are not escaped, so that trimming does not tell an escaped text from a plain one. -/
theorem trim_escape (text : List Char) : trim (escape text) = escape (trim text) := by
  rw [trim, trimStart_escape, trimEnd_escape, trim]

private theorem mem_escape {text : List Char} {character : Char}
    (member : character ∈ escape text) :
    character = '\\' ∨ character ∈ text := by
  induction text with
  | nil => cases member
  | cons first rest ih =>
      cases special : isSpecial first with
      | true =>
          simp only [escape_cons_special special, List.mem_cons] at member ⊢
          grind
      | false =>
          simp only [escape_cons_plain special, List.mem_cons] at member ⊢
          grind

private theorem unescape_cases {text plain : List Char} (read : unescape text = .ok plain) :
    (text = [] ∧ plain = []) ∨
      ∃ character rest tail, unescape rest = .ok tail ∧ plain = character :: tail ∧
        (text = character :: rest ∨ text = '\\' :: character :: rest) := by
  unfold unescape at read
  split at read
  · cases read
    exact .inl ⟨rfl, rfl⟩
  · cases read
  · obtain ⟨tail, rest, rfl⟩ := Except.map_eq_ok_iff.mp read
    exact .inr ⟨_, _, tail, rest, rfl, .inr rfl⟩
  · obtain ⟨tail, rest, rfl⟩ := Except.map_eq_ok_iff.mp read
    exact .inr ⟨_, _, tail, rest, rfl, .inl rfl⟩

private theorem mem_of_unescape {text plain : List Char} (read : unescape text = .ok plain)
    {character : Char} (member : character ∈ plain) : character ∈ text := by
  induction plain generalizing text with
  | nil => cases member
  | cons first tail ih =>
      obtain ⟨-, none⟩ | ⟨_, rest, _, read, same, written⟩ := unescape_cases read
      · cases none
      · cases same
        have among : character ∈ first :: rest := by
          obtain rfl | member := List.mem_cons.mp member
          · exact List.mem_cons_self
          · exact List.mem_cons_of_mem _ (ih read member)
        obtain rfl | rfl := written
        · exact among
        · exact List.mem_cons_of_mem _ among

private theorem unescape_eq_nil_iff {text plain : List Char} (read : unescape text = .ok plain) :
    plain = [] ↔ text = [] := by
  obtain ⟨rfl, rfl⟩ | ⟨_, _, _, -, rfl, rfl | rfl⟩ := unescape_cases read <;> simp

/-- What an escaped text ends with is not a backslash that escapes, so it is kept. -/
theorem getLast?_of_unescape {text plain : List Char} (read : unescape text = .ok plain) :
    plain.getLast? = text.getLast? := by
  induction plain generalizing text with
  | nil => rw [(unescape_eq_nil_iff read).mp rfl]
  | cons first tail ih =>
      obtain ⟨-, none⟩ | ⟨_, rest, _, read, same, written⟩ := unescape_cases read
      · cases none
      · cases same
        have last := ih read
        have empty := unescape_eq_nil_iff read
        cases tail with
        | nil =>
            obtain rfl := empty.mp rfl
            obtain rfl | rfl := written <;> rfl
        | cons second tail =>
            obtain ⟨head, rest, rfl⟩ := List.exists_cons_of_ne_nil
              fun none => List.cons_ne_nil second tail (empty.mpr none)
            obtain rfl | rfl := written <;> simpa using last

/-! ## Bars -/

theorem cutAtBars_cons {character : Char} (bar : character ≠ '|') (slash : character ≠ '\\')
    (rest : List Char) :
    cutAtBars (character :: rest) = extendFirst character (cutAtBars rest) := by
  cases rest <;> simp [cutAtBars, slash]

private theorem cutAtBars_escape {rest piece : List Char} {pieces : List (List Char)}
    (text : List Char) (cut : cutAtBars rest = piece :: pieces) :
    cutAtBars (escape text ++ rest) = (escape text ++ piece) :: pieces := by
  induction text with
  | nil => exact cut
  | cons character text ih =>
      cases special : isSpecial character with
      | true => simp [escape_cons_special special, cutAtBars, ih, extendFirst]
      | false =>
          obtain ⟨slash, bar, -⟩ := ne_of_plain special
          simp [escape_cons_plain special, cutAtBars_cons bar slash, ih, extendFirst]

private theorem cutAtBars_plain {text rest piece : List Char} {pieces : List (List Char)}
    (plain : ∀ character ∈ text, character ≠ '|' ∧ character ≠ '\\')
    (cut : cutAtBars rest = piece :: pieces) :
    cutAtBars (text ++ rest) = (text ++ piece) :: pieces := by
  induction text with
  | nil => exact cut
  | cons character text ih =>
      obtain ⟨⟨bar, slash⟩, plain⟩ := List.forall_mem_cons.mp plain
      simp [cutAtBars_cons bar slash, ih plain, extendFirst]

private theorem mem_extendFirst {character : Char} {pieces : List (List Char)} {piece : List Char}
    (member : piece ∈ extendFirst character pieces) {inside : Char} (within : inside ∈ piece) :
    inside = character ∨ ∃ old ∈ pieces, inside ∈ old := by
  cases pieces with
  | nil =>
      obtain rfl := List.mem_singleton.mp member
      exact .inl (List.mem_singleton.mp within)
  | cons old pieces =>
      obtain rfl | member := List.mem_cons.mp member
      · obtain same | within := List.mem_cons.mp within
        · exact .inl same
        · exact .inr ⟨old, List.mem_cons_self, within⟩
      · exact .inr ⟨piece, List.mem_cons_of_mem _ member, within⟩

private theorem exists_cutAtBars (text : List Char) :
    ∃ piece pieces, cutAtBars text = piece :: pieces := by
  have extended : ∀ character pieces, ∃ piece others,
      extendFirst character pieces = piece :: others := by
    intro character pieces
    cases pieces <;> exact ⟨_, _, rfl⟩
  unfold cutAtBars
  split
  · exact ⟨_, _, rfl⟩
  · exact ⟨_, _, rfl⟩
  · exact extended _ _
  · exact extended _ _

private theorem mem_of_cutAtBars {text piece : List Char} (member : piece ∈ cutAtBars text)
    {inside : Char} (within : inside ∈ piece) : inside ∈ text := by
  induction text using cutAtBars.induct generalizing piece with
  | case1 =>
      obtain rfl := List.mem_singleton.mp member
      cases within
  | case2 rest ih =>
      obtain rfl | member := List.mem_cons.mp member
      · cases within
      · exact List.mem_cons_of_mem _ (ih member within)
  | case3 character rest ih =>
      obtain rfl | ⟨_, member, within⟩ := mem_extendFirst member within
      · exact List.mem_cons_self
      · obtain rfl | ⟨_, member, within⟩ := mem_extendFirst member within
        · exact List.mem_cons_of_mem _ List.mem_cons_self
        · exact List.mem_cons_of_mem _ (List.mem_cons_of_mem _ (ih member within))
  | case4 character rest bar slash ih =>
      rw [cutAtBars] at member
      · obtain rfl | ⟨_, member, within⟩ := mem_extendFirst member within
        · exact List.mem_cons_self
        · exact List.mem_cons_of_mem _ (ih member within)
      · exact bar
      · exact slash

/-! ## What is read is well formed -/

private theorem parseWeight_eq_ok {text : List Char} {weight : Float32}
    (read : parseWeight text = .ok weight) : weight.isFinite = true ∧ ¬weight < 0 := by
  unfold parseWeight at read
  split at read
  · cases read
  · split at read
    · cases read
    · rename_i inRange
      cases read
      simpa using inRange

private theorem parseAlternative_wellFormed {text : List Char} {production : Production}
    (oneLine : '\n' ∉ text) (read : parseAlternative text = .ok production) :
    production.WellFormed := by
  unfold parseAlternative at read
  split at read
  · rename_i weightText replacementText cut
    obtain ⟨weight, weighed, read⟩ := Except.bind_eq_ok_iff.mp read
    obtain ⟨replacement, replaced, read⟩ := Except.bind_eq_ok_iff.mp read
    cases read
    obtain ⟨finite, notNegative⟩ := parseWeight_eq_ok weighed
    refine ⟨finite, notNegative, fun feed => oneLine ?_⟩
    rw [append_of_cutAt? cut]
    have after := mem_of_mem_trim (mem_of_unescape replaced feed)
    exact List.mem_append_right _ (List.mem_cons_of_mem _ after)
  · obtain ⟨replacement, replaced, read⟩ := Except.bind_eq_ok_iff.mp read
    cases read
    have unit : (1.0 : Float32).isFinite = true ∧ ¬(1.0 : Float32) < 0 := by decide +kernel
    exact ⟨unit.1, unit.2, fun feed => oneLine (mem_of_unescape replaced feed)⟩

private theorem parseSymbol_not_blank {text : List Char} {symbol : Symbol}
    (read : parseSymbol text = .ok symbol) : isBlank symbol = false := by
  obtain ⟨word, unescaped, read⟩ := Except.bind_eq_ok_iff.mp read
  split at read
  · cases read
    -- A trimmed text does not end with a blank, and the symbol is what it ends with.
    exact (trimEnd_eq_self_iff _).mp (trimEnd_trim text) symbol (getLast?_of_unescape unescaped).symm
  · cases read

/-- What holds of every production that can be read from one line. -/
def OfReadable (holds : Production → Prop) : Prop :=
  ∀ {piece : List Char} {production : Production}, '\n' ∉ piece →
    parseAlternative (trim piece) = .ok production → holds production

theorem ofReadable_wellFormed : OfReadable Production.WellFormed :=
  fun oneLine => parseAlternative_wellFormed fun feed => oneLine (mem_of_mem_trim feed)

private theorem parseRule_entryOf {holds : Production → Prop} (readable : OfReadable holds)
    {line : List Char} {symbol : Symbol} {productions : List Production}
    (oneLine : '\n' ∉ line) (read : parseRule line = .ok (symbol, productions)) :
    EntryOf holds (symbol, productions) := by
  unfold parseRule at read
  split at read
  · cases read
  · rename_i left right cut
    obtain ⟨_, named, read⟩ := Except.bind_eq_ok_iff.mp read
    obtain ⟨_, listed, read⟩ := Except.bind_eq_ok_iff.mp read
    cases read
    refine ⟨parseSymbol_not_blank named, ?_, ?_⟩
    · obtain ⟨piece, pieces, cut⟩ := exists_cutAtBars right
      rw [cut] at listed
      obtain ⟨first, others, -, -, rfl⟩ := Except.mapM_cons_eq_ok_iff.mp listed
      exact List.cons_ne_nil _ _
    · intro production member
      obtain ⟨piece, place, read⟩ := Except.exists_of_mem_mapM listed member
      refine readable (fun feed => oneLine ?_) read
      rw [append_of_cutAtArrow? cut]
      have after := mem_of_cutAtBars place feed
      exact List.mem_append_right _ (List.mem_cons_of_mem _ (List.mem_cons_of_mem _ after))

theorem EntryOf.append {holds : Production → Prop} {symbol : Symbol}
    {productions before : List Production} (new : EntryOf holds (symbol, productions))
    (old : EntryOf holds (symbol, before)) : EntryOf holds (symbol, before ++ productions) where
  symbol := new.symbol
  nonempty := List.append_ne_nil_of_right_ne_nil before new.nonempty
  productions := fun production member =>
    (List.mem_append.mp member).elim (old.productions production) (new.productions production)

private theorem parseLines_entriesOf {holds : Production → Prop} (readable : OfReadable holds)
    {number : Nat} {rules result : Rules} {lines : List (List Char)}
    (oneLine : ∀ line ∈ lines, '\n' ∉ line) (start : ∀ entry ∈ rules.entries, EntryOf holds entry)
    (read : parseLines number rules lines = .ok result) :
    ∀ entry ∈ result.entries, EntryOf holds entry := by
  induction lines generalizing number rules with
  | nil =>
      cases read
      exact start
  | cons line rest ih =>
      obtain ⟨first, oneLine⟩ := List.forall_mem_cons.mp oneLine
      rw [parseLines] at read
      split at read
      · exact ih oneLine start read
      · split at read
        · cases read
        · rename_i symbol productions parsed
          have new := parseRule_entryOf readable (fun feed => first (mem_of_mem_trim feed)) parsed
          exact ih oneLine (Rules.forall_append start new fun before => new.append) read

/-! ## The text of a table is read back -/

private theorem weightText_plain {weight : Float32} (finite : weight.isFinite = true)
    {character : Char} (member : character ∈ Decimal.toText weight) :
    isBlank character = false ∧ isSpecial character = false ∧ character ≠ ':' ∧
      character ≠ '\n' := by
  obtain digit | rfl | rfl := Decimal.mem_toText finite member
  · have code := Decimal.digit_cases digit
    have dark : isBlank character = false := by
      simp only [isBlank, blankRanges, List.any_cons, List.any_nil, Bool.or_eq_false_iff,
        Bool.and_eq_false_iff, decide_eq_false_iff_not, and_true]
      omega
    have other : ∀ special : Char, special.isDigit = false → character ≠ special :=
      fun _ => Decimal.ne_of_isDigit digit
    simp [dark, isSpecial, other]
  · decide
  · decide

private theorem parseWeight_toText {weight : Float32} (finite : weight.isFinite = true)
    (notNegative : ¬weight < 0) : parseWeight (Decimal.toText weight) = .ok weight := by
  simp [parseWeight, Decimal.readFloat32?_toText finite, finite, notNegative]

private theorem cutAtBars_alternativeText {production : Production} (proper : production.WellFormed)
    {rest piece : List Char} {pieces : List (List Char)} (cut : cutAtBars rest = piece :: pieces) :
    cutAtBars (alternativeText production ++ rest) =
      (alternativeText production ++ piece) :: pieces := by
  have plain : ∀ character ∈ Decimal.toText production.weight ++ [':'],
      character ≠ '|' ∧ character ≠ '\\' := by
    intro character member
    obtain member | member := List.mem_append.mp member
    · obtain ⟨slash, bar, -⟩ := ne_of_plain (weightText_plain proper.finite member).2.1
      exact ⟨bar, slash⟩
    · obtain rfl := List.mem_singleton.mp member
      decide
  have whole := cutAtBars_plain plain (cutAtBars_escape production.replacement cut)
  simpa [alternativeText] using whole

private theorem parseAlternative_alternativeText {production : Production}
    (proper : production.WellFormed) {blanks : List Char} (blank : trimEnd blanks = []) :
    parseAlternative (trim (' ' :: alternativeText production ++ blanks)) =
      .ok production.trimmed := by
  have plain : ∀ character ∈ Decimal.toText production.weight, isBlank character = false ∧
      isSpecial character = false ∧ character ≠ ':' ∧ character ≠ '\n' :=
    fun _ => weightText_plain proper.finite
  have dark : isBlank ':' = false := by decide
  have written : trim (' ' :: alternativeText production ++ blanks) =
      Decimal.toText production.weight ++ ':' :: escape (trimEnd production.replacement) := by
    have shape : ' ' :: alternativeText production ++ blanks =
        ' ' :: (Decimal.toText production.weight ++
          ':' :: (escape production.replacement ++ blanks)) := by
      simp [alternativeText]
    rw [shape, trim, trimStart_cons_of_blank (by decide),
      trimStart_append_cons (fun character member => (plain character member).1) dark,
      trimEnd_append_cons dark, trimEnd_append_of_blank blank, trimEnd_escape]
  have absent : ':' ∉ Decimal.toText production.weight :=
    fun member => (plain ':' member).2.2.1 rfl
  have weight : parseWeight (trim (Decimal.toText production.weight)) = .ok production.weight := by
    rw [trim_of_not_blank fun character member => (plain character member).1]
    exact parseWeight_toText proper.finite proper.notNegative
  have replacement : unescape (trim (escape (trimEnd production.replacement))) =
      .ok (trim production.replacement) := by
    rw [trim_escape, trim_trimEnd, unescape_escape]
  rw [written, parseAlternative, cutAt?_append absent]
  simp only [weight, replacement]
  rfl

private theorem parseAlternatives {productions : List Production} (nonempty : productions ≠ [])
    (proper : ∀ production ∈ productions, production.WellFormed) :
    (cutAtBars (' ' :: alternativesText productions)).mapM
        (fun piece => parseAlternative (trim piece)) =
      .ok (productions.map Production.trimmed) := by
  -- The blank behind a bar is the one in front of the next alternative.
  induction productions with
  | nil => exact absurd rfl nonempty
  | cons production rest ih =>
      obtain ⟨first, proper⟩ := List.forall_mem_cons.mp proper
      have blank : ∀ character ∈ [' '], character ≠ '|' ∧ character ≠ '\\' := by
        simp
      cases rest with
      | nil =>
          have cut : cutAtBars ([' '] ++ (alternativeText production ++ [])) =
              [' ' :: alternativeText production ++ []] :=
            cutAtBars_plain blank (cutAtBars_alternativeText first cutAtBars.eq_1)
          have shape : ' ' :: alternativesText [production] =
              [' '] ++ (alternativeText production ++ []) := by
            simp [alternativesText]
          have read := parseAlternative_alternativeText first trimEnd_nil
          rw [shape, cut]
          exact Except.mapM_cons_eq_ok_iff.mpr ⟨_, [], read, rfl, rfl⟩
      | cons next rest =>
          have cut : cutAtBars ([' '] ++ (alternativeText production ++ ([' '] ++
                '|' :: ' ' :: alternativesText (next :: rest)))) =
              (' ' :: alternativeText production ++ [' ']) ::
                cutAtBars (' ' :: alternativesText (next :: rest)) :=
            cutAtBars_plain blank
              (cutAtBars_alternativeText first (cutAtBars_plain blank (cutAtBars.eq_2 _)))
          have shape : ' ' :: alternativesText (production :: next :: rest) =
              [' '] ++ (alternativeText production ++ ([' '] ++
                '|' :: ' ' :: alternativesText (next :: rest))) := by
            simp [alternativesText]
          have blankEnd : trimEnd [' '] = [] := by decide
          have read := parseAlternative_alternativeText first blankEnd
          rw [shape, cut]
          exact Except.mapM_cons_eq_ok_iff.mpr
            ⟨_, _, read, ih (List.cons_ne_nil next rest) proper, rfl⟩

/-- Only the last alternative is touched when a line is trimmed at its end. -/
theorem trimEnd_alternativesText {productions : List Production} (nonempty : productions ≠ [])
    (proper : ∀ production ∈ productions, production.WellFormed) (before : List Char) :
    ∃ others, others ≠ [] ∧ (∀ production ∈ others, production.WellFormed) ∧
      others.map Production.trimmed = productions.map Production.trimmed ∧
      trimEnd (before ++ alternativesText productions) = before ++ alternativesText others := by
  -- What is written before an alternative is no obstacle: its colon stops the trimming.
  induction productions generalizing before with
  | nil => exact absurd rfl nonempty
  | cons production rest ih =>
      obtain ⟨first, proper⟩ := List.forall_mem_cons.mp proper
      cases rest with
      | nil =>
          let cut : Production := { production with replacement := trimEnd production.replacement }
          have cutProper : cut.WellFormed :=
            ⟨first.finite, first.notNegative, fun feed => first.oneLine (mem_of_mem_trimEnd feed)⟩
          have dark : isBlank ':' = false := by decide
          refine ⟨[cut], List.cons_ne_nil _ _, by simpa using cutProper, ?_, ?_⟩
          · simp [cut, Production.trimmed, trim_trimEnd]
          · have kept := trimEnd_append_cons dark (before ++ Decimal.toText production.weight)
              (escape production.replacement)
            simpa [alternativesText, alternativeText, trimEnd_escape, cut] using kept
      | cons next rest =>
          obtain ⟨others, some, othersProper, same, written⟩ :=
            ih (List.cons_ne_nil _ _) proper
              (before ++ (alternativeText production ++ " | ".toList))
          obtain ⟨other, others, rfl⟩ := List.exists_cons_of_ne_nil some
          refine ⟨production :: other :: others, List.cons_ne_nil _ _, ?_, ?_, ?_⟩
          · exact List.forall_mem_cons.mpr ⟨first, othersProper⟩
          · simpa using same
          · simpa [alternativesText] using written

private theorem cutAtArrow?_escape (symbol : Symbol) (rest : List Char) :
    cutAtArrow? (escape [symbol] ++ ' ' :: '-' :: '>' :: rest) =
      some (escape [symbol] ++ [' '], rest) := by
  cases special : isSpecial symbol <;> simp [escape, special, cutAtArrow?]

private theorem parseSymbol_escape {symbol : Symbol} (dark : isBlank symbol = false) :
    parseSymbol (escape [symbol] ++ [' ']) = .ok symbol := by
  have alone : trim [symbol] = [symbol] := trim_of_not_blank (by simpa using dark)
  have blank : trimEnd [' '] = [] := by decide
  have trimmed : trim (escape [symbol] ++ [' ']) = escape [symbol] := by
    rw [← trimStart_trimEnd, trimEnd_append_of_blank blank, trimStart_trimEnd, trim_escape, alone]
  rw [parseSymbol, trimmed, unescape_escape]
  rfl

def lineText (entry : Symbol × List Production) : List Char :=
  escape [entry.1] ++ " -> ".toList ++ alternativesText entry.2

theorem entryText_eq (entry : Symbol × List Production) :
    entryText entry = lineText entry ++ ['\n'] :=
  rfl

private theorem trimStart_lineText {entry : Symbol × List Production}
    (dark : isBlank entry.1 = false) :
    trimStart (lineText entry) = lineText entry := by
  have slash : isBlank '\\' = false := by decide
  rw [trimStart_eq_self_iff]
  intro first
  cases special : isSpecial entry.1 <;> simp [lineText, escape, special] <;> rintro rfl
  · exact dark
  · exact slash

private theorem saysNothing_lineText (entry : Symbol × List Production) :
    saysNothing (lineText entry) = false := by
  cases special : isSpecial entry.1 with
  | true => simp [saysNothing, lineText, escape, special]
  | false => simp [saysNothing, lineText, escape, special, (ne_of_plain special).2.2]

theorem parseRule_lineText {entry : Symbol × List Production}
    (proper : EntryOf Production.WellFormed entry) :
    saysNothing (trim (lineText entry)) = false ∧
      parseRule (trim (lineText entry)) = .ok (trimmedEntry entry) := by
  obtain ⟨others, some, othersProper, same, written⟩ := trimEnd_alternativesText proper.nonempty
    proper.productions (escape [entry.1] ++ " -> ".toList)
  have line : trim (lineText entry) = lineText (entry.1, others) := by
    rw [trim, trimStart_lineText proper.symbol]
    exact written
  have shape : lineText (entry.1, others) =
      escape [entry.1] ++ ' ' :: '-' :: '>' :: ' ' :: alternativesText others := by
    simp [lineText]
  rw [line]
  refine ⟨saysNothing_lineText _, ?_⟩
  rw [shape, parseRule, cutAtArrow?_escape]
  simp only [parseSymbol_escape proper.symbol, parseAlternatives some othersProper, same]
  rfl

private theorem alternativeText_oneLine {production : Production} (proper : production.WellFormed) :
    '\n' ∉ alternativeText production := by
  intro feed
  obtain weight | feed := List.mem_append.mp feed
  · exact (weightText_plain proper.finite weight).2.2.2 rfl
  · obtain colon | feed := List.mem_cons.mp feed
    · cases colon
    · obtain slash | feed := mem_escape feed
      · cases slash
      · exact proper.oneLine feed

private theorem alternativesText_oneLine {productions : List Production}
    (proper : ∀ production ∈ productions, production.WellFormed) :
    '\n' ∉ alternativesText productions := by
  induction productions with
  | nil => exact List.not_mem_nil
  | cons production rest ih =>
      obtain ⟨first, proper⟩ := List.forall_mem_cons.mp proper
      cases rest with
      | nil => exact alternativeText_oneLine first
      | cons next rest => simp [alternativesText, alternativeText_oneLine first, ih proper]

theorem lineText_oneLine {entry : Symbol × List Production}
    (proper : EntryOf Production.WellFormed entry) : '\n' ∉ lineText entry := by
  have symbol : '\n' ∉ escape [entry.1] := by
    intro feed
    obtain slash | feed := mem_escape feed
    · cases slash
    · have dark := proper.symbol
      rw [← List.mem_singleton.mp feed] at dark
      cases dark
  simp [lineText, symbol, alternativesText_oneLine proper.productions]

end RuleText

/-- Whatever the text is, the entries read from it have what every readable production has. -/
theorem Rules.parse_entriesOf {holds : Production → Prop} (readable : RuleText.OfReadable holds)
    {text : List Char} {rules : Rules} (read : Rules.parse text = .ok rules) :
    ∀ entry ∈ rules.entries, RuleText.EntryOf holds entry :=
  RuleText.parseLines_entriesOf readable (fun _ => not_mem_of_mem_lines) (by simp [empty]) read

theorem Rules.parse_wellFormed {text : List Char} {rules : Rules}
    (read : Rules.parse text = .ok rules) : rules.WellFormed :=
  parse_entriesOf RuleText.ofReadable_wellFormed read

end Grove
