import Grove.Config.Validity
import Grove.Proofs.Grammar.Lines

/-!
# Tables that their text carries

Blanks at the ends of a replacement are lost when the text of its table is read, but the text is
still read. A line feed among the last blanks of a line does no harm either: what follows it are
blank lines, which say nothing. Everywhere else it ends the line too early. So well-formed tables
are read back but for those blanks, and the tables that survive are those without them, and no
others.
-/

set_option autoImplicit false

namespace Grove

open Text

namespace RuleText

/-- The productions without the blanks at the end of the last replacement. -/
def cutLast : List Production → List Production
  | [] => []
  | [production] => [{ production with replacement := trimEnd production.replacement }]
  | production :: rest => production :: cutLast rest

/-- An entry without the blanks at the end of its line. -/
def cutEntry (entry : Symbol × List Production) : Symbol × List Production :=
  (entry.1, cutLast entry.2)

/-- An entry whose symbol is not blank, that has productions, and whose replacements hold no line
feed but for the blanks at the end of the last one. -/
def CarriedEntry (entry : Symbol × List Production) : Prop :=
  EntryOf (fun production => '\n' ∉ production.replacement) (cutEntry entry)

instance (entry : Symbol × List Production) : Decidable (CarriedEntry entry) :=
  inferInstanceAs (Decidable (EntryOf _ _))

end RuleText

/-- Every entry is read back from its line. -/
def Rules.Carried (rules : Rules) : Prop :=
  ∀ entry ∈ rules.entries, RuleText.CarriedEntry entry

instance (rules : Rules) : Decidable rules.Carried :=
  inferInstanceAs (Decidable (∀ entry ∈ rules.entries, _))

/-- All weights are finite and not below zero. -/
def Rules.Weighted (rules : Rules) : Prop :=
  ∀ entry ∈ rules.entries, ∀ production ∈ entry.2, production.hasValidWeight = true

theorem Rules.badProduction?_eq_none_iff (rules : Rules) :
    rules.badProduction? = none ↔ rules.Weighted := by
  simp [badProduction?, Weighted, List.findSome?_eq_none_iff, List.find?_eq_none]

namespace RuleText

/-! ## The blanks at the end of a line -/

private theorem cutLast_eq_nil_iff {productions : List Production} :
    cutLast productions = [] ↔ productions = [] := by
  unfold cutLast
  split <;> simp

private theorem alternativesText_cons (production : Production) {rest : List Production}
    (some : rest ≠ []) : alternativesText (production :: rest) =
      alternativeText production ++ " | ".toList ++ alternativesText rest := by
  obtain ⟨next, rest, rfl⟩ := List.exists_cons_of_ne_nil some
  rfl

private theorem exists_of_mem_cutLast {productions : List Production} {production : Production}
    (member : production ∈ cutLast productions) :
    ∃ whole ∈ productions, whole.weight = production.weight ∧
      production.replacement ⊆ whole.replacement := by
  induction productions using cutLast.induct with
  | case1 => cases member
  | case2 only =>
      obtain rfl := List.mem_singleton.mp member
      exact ⟨only, List.mem_singleton_self only, rfl, fun _ => mem_of_mem_trimEnd⟩
  | case3 first rest several ih =>
      rw [cutLast.eq_3 first rest several] at member
      obtain rfl | member := List.mem_cons.mp member
      · exact ⟨production, List.mem_cons_self, rfl, List.Subset.refl _⟩
      · obtain ⟨whole, place, same⟩ := ih member
        exact ⟨whole, List.mem_cons_of_mem _ place, same⟩

private theorem map_trimmed_cutLast (productions : List Production) :
    (cutLast productions).map Production.trimmed = productions.map Production.trimmed := by
  induction productions using cutLast.induct with
  | case1 => rfl
  | case2 only => simp [cutLast, Production.trimmed, trim_trimEnd]
  | case3 first rest several ih =>
      rw [cutLast.eq_3 first rest several, List.map_cons, List.map_cons, ih]

private theorem trimmedEntry_cutEntry (entry : Symbol × List Production) :
    trimmedEntry (cutEntry entry) = trimmedEntry entry :=
  congrArg (Prod.mk entry.1) (map_trimmed_cutLast entry.2)

private theorem exists_blanks (text : List Char) :
    ∃ blanks, (∀ character ∈ blanks, isBlank character = true) ∧
      escape text = escape (trimEnd text) ++ blanks := by
  refine ⟨((escape text).reverse.takeWhile isBlank).reverse, ?_, ?_⟩
  · intro character member
    exact List.mem_takeWhile_imp (List.mem_reverse.mp member)
  · rw [← trimEnd_escape, trimEnd, ← List.reverse_append, List.takeWhile_append_dropWhile,
      List.reverse_reverse]

private theorem alternativesText_cutLast (productions : List Production) :
    ∃ blanks, (∀ character ∈ blanks, isBlank character = true) ∧
      alternativesText productions = alternativesText (cutLast productions) ++ blanks := by
  induction productions using cutLast.induct with
  | case1 => exact ⟨[], nofun, rfl⟩
  | case2 only =>
      obtain ⟨blanks, blank, split⟩ := exists_blanks only.replacement
      refine ⟨blanks, blank, ?_⟩
      simp [alternativesText, alternativeText, cutLast, split]
  | case3 first rest several ih =>
      obtain ⟨blanks, blank, split⟩ := ih
      have cut : cutLast (first :: rest) = first :: cutLast rest := cutLast.eq_3 first rest several
      refine ⟨blanks, blank, ?_⟩
      rw [cut, alternativesText_cons first several,
        alternativesText_cons first (mt cutLast_eq_nil_iff.mp several), split]
      simp only [List.append_assoc]

private theorem lineText_cutEntry (entry : Symbol × List Production) :
    ∃ blanks, (∀ character ∈ blanks, isBlank character = true) ∧
      lineText entry = lineText (cutEntry entry) ++ blanks := by
  obtain ⟨blanks, blank, split⟩ := alternativesText_cutLast entry.2
  refine ⟨blanks, blank, ?_⟩
  simp only [lineText, cutEntry, split, List.append_assoc]

private theorem wellFormed_cutEntry {entry : Symbol × List Production}
    (carried : CarriedEntry entry)
    (weighted : ∀ production ∈ entry.2, production.hasValidWeight = true) :
    EntryOf Production.WellFormed (cutEntry entry) where
  symbol := carried.symbol
  nonempty := carried.nonempty
  productions := fun production member => by
    obtain ⟨whole, place, same, -⟩ := exists_of_mem_cutLast member
    have proper := weighted whole place
    rw [Production.hasValidWeight, same] at proper
    simp only [Bool.and_eq_true, Bool.not_eq_true', decide_eq_false_iff_not] at proper
    exact ⟨proper.1, proper.2, carried.productions production member⟩

/-! ## Lines -/

private theorem trimEnd_of_blank {blanks : List Char}
    (blank : ∀ character ∈ blanks, isBlank character = true) : trimEnd blanks = [] := by
  rw [trimEnd, List.reverse_eq_nil_iff, List.dropWhile_eq_nil_iff]
  exact fun character member => blank character (List.mem_reverse.mp member)

private theorem readLine_of_blank {line : List Char}
    (blank : ∀ character ∈ line, isBlank character = true) : readLine line = .ok none := by
  have nothing : trim line = [] := by
    rw [← trimStart_trimEnd, trimEnd_of_blank blank]
    rfl
  rw [readLine, nothing]
  rfl

private theorem readLines_of_blank {pieces : List (List Char)}
    (blank : ∀ line ∈ pieces, ∀ character ∈ line, isBlank character = true) (number : Nat) :
    readLines number pieces = .ok [] := by
  induction pieces generalizing number with
  | nil => rfl
  | cons line rest ih =>
      obtain ⟨first, blank⟩ := List.forall_mem_cons.mp blank
      rw [readLines, readLine_of_blank first, ih blank]
      rfl

/-- Behind a line that says productions, blanks are either on the same line or on blank lines. -/
theorem readLines_lineText {entry : Symbol × List Production}
    (proper : EntryOf Production.WellFormed entry) {blanks : List Char}
    (blank : ∀ character ∈ blanks, isBlank character = true) (number : Nat) :
    readLines number (lines (lineText entry ++ blanks)) = .ok [trimmedEntry entry] := by
  obtain ⟨piece, pieces, cut⟩ := exists_lines blanks
  have inside : ∀ line ∈ lines blanks, ∀ character ∈ line, isBlank character = true :=
    fun line member character within => blank character (mem_of_mem_lines member within)
  rw [cut] at inside
  obtain ⟨first, others⟩ := List.forall_mem_cons.mp inside
  have trimmed : trim (lineText entry ++ piece) = trim (lineText entry) := by
    rw [← trimStart_trimEnd, trimEnd_append_of_blank (trimEnd_of_blank first), trimStart_trimEnd]
  obtain ⟨heard, read⟩ := parseRule_lineText proper
  have said : readLine (lineText entry ++ piece) = .ok (some (trimmedEntry entry)) := by
    rw [readLine, trimmed, heard, read]
    rfl
  rw [lines_append_of_oneLine (lineText_oneLine proper) cut, readLines, said,
    readLines_of_blank others]
  rfl

private theorem readLines_entries {entries : List (Symbol × List Production)}
    (carried : ∀ entry ∈ entries, CarriedEntry entry)
    (weighted : ∀ entry ∈ entries, ∀ production ∈ entry.2, production.hasValidWeight = true)
    (number : Nat) :
    readLines number (lines (entries.flatMap entryText)) = .ok (entries.map trimmedEntry) := by
  induction entries generalizing number with
  | nil => rfl
  | cons entry rest ih =>
      obtain ⟨first, carried⟩ := List.forall_mem_cons.mp carried
      obtain ⟨firstWeights, weighted⟩ := List.forall_mem_cons.mp weighted
      obtain ⟨blanks, blank, split⟩ := lineText_cutEntry entry
      have shape : (entry :: rest).flatMap entryText =
          (lineText (cutEntry entry) ++ blanks) ++ '\n' :: rest.flatMap entryText := by
        simp [entryText_eq, split]
      rw [shape, lines_append_feed, readLines_append,
        readLines_lineText (wellFormed_cutEntry first firstWeights) blank]
      dsimp only
      rw [ih carried weighted, trimmedEntry_cutEntry]
      rfl

end RuleText

/-- A table that its text carries is read back with its replacements trimmed. -/
theorem Rules.parse_toText_of_carried {rules : Rules} (carried : rules.Carried)
    (weighted : rules.Weighted) :
    ∃ read, Rules.parse rules.toText = .ok read ∧
      read.entries = rules.entries.map RuleText.trimmedEntry := by
  have sorted : (empty.entries ++ rules.entries.map RuleText.trimmedEntry).Pairwise
      fun left right => left.1 < right.1 :=
    List.pairwise_map.mpr rules.sorted
  refine ⟨empty.appendAll (rules.entries.map RuleText.trimmedEntry), ?_,
    entries_foldl_append sorted⟩
  rw [parse_eq, toText, RuleText.readLines_entries carried weighted]
  rfl

/-- A replacement may hold a line feed among the blanks at its end, but not before them. -/
example :
    (Rules.ofList [('F', ⟨1, " F ".toList⟩), ('F', ⟨1, "L \n\n".toList⟩)]).Carried ∧
      ¬(Rules.ofList [('F', ⟨1, "F\nL".toList⟩)]).Carried := by
  decide +kernel

/-! ## Tables that survive -/

theorem Rules.WellFormed.carried {rules : Rules} (proper : rules.WellFormed) : rules.Carried := by
  intro entry member
  have kind := proper entry member
  refine ⟨kind.symbol, mt RuleText.cutLast_eq_nil_iff.mp kind.nonempty, fun production place => ?_⟩
  obtain ⟨whole, wholePlace, -, within⟩ := RuleText.exists_of_mem_cutLast place
  exact fun feed => (kind.productions whole wholePlace).oneLine (within feed)

theorem Rules.WellFormed.weighted {rules : Rules} (proper : rules.WellFormed) : rules.Weighted := by
  intro entry member production place
  have kind := (proper entry member).productions production place
  simp [Production.hasValidWeight, kind.finite, kind.notNegative]

/-- A well-formed table is read back from its text with the replacements trimmed. -/
theorem Rules.parse_toText {rules : Rules} (proper : rules.WellFormed) :
    ∃ read, Rules.parse rules.toText = .ok read ∧
      read.entries = rules.entries.map RuleText.trimmedEntry :=
  parse_toText_of_carried proper.carried proper.weighted

private theorem Rules.parse_toText_of_printable {rules : Rules} (printable : rules.Printable) :
    Rules.parse rules.toText = .ok rules := by
  obtain ⟨proper, same⟩ := rules.printable_iff.mp printable
  obtain ⟨read, parsed, entries⟩ := parse_toText proper
  rw [parsed, eq_of_entries (entries.trans same)]

/-- The tables that are read back from their text are those with symbols that are not blank, some
production for each of them, finite weights that are not negative, and replacements on one line
without a blank at either end. -/
theorem Rules.parse_toText_eq_ok_iff (rules : Rules) :
    Rules.parse rules.toText = .ok rules ↔ rules.Printable := by
  constructor
  · intro parsed
    have proper := parse_wellFormed parsed
    obtain ⟨read, again, entries⟩ := parse_toText proper
    obtain rfl := Except.ok.inj (parsed.symm.trans again)
    exact rules.printable_iff.mpr ⟨proper, entries.symm⟩
  · exact parse_toText_of_printable

example : (Rules.ofList [('|', ⟨1, "\\|#:->[]".toList⟩)]).Printable := by
  decide +kernel

end Grove
