import Grove.Proofs.Grammar.Carried

/-!
# Tables that were read, read again

A backslash lets a replacement begin with a blank, but nothing lets it end with one: what a trimmed
text ends with is no blank, with a backslash before it or without. The text of a table writes no
backslash before a blank. So a table that was read from a text comes back from its own text without
the blanks that its replacements begin with, and from then on it stays as it is.
-/

set_option autoImplicit false

namespace Grove

open Text

/-- A production as it can be read: its replacement does not end with a blank. -/
structure Production.Readable (production : Production) : Prop
    extends Production.WellFormed production where
  finish : ∀ last, production.replacement.getLast? = some last → isBlank last = false

/-- A production without the blanks that its replacement begins with. -/
def Production.unindented (production : Production) : Production :=
  { production with replacement := trimStart production.replacement }

theorem Production.Readable.trimmed_eq {production : Production}
    (readable : production.Readable) : production.trimmed = production.unindented := by
  have kept := (trimEnd_eq_self_iff production.replacement).mpr readable.finish
  rw [Production.trimmed, Production.unindented, ← trimStart_trimEnd, kept]

theorem Production.unindented_eq_self_iff (production : Production) :
    production.unindented = production ↔
      ∀ first, production.replacement.head? = some first → isBlank first = false := by
  rw [← trimStart_eq_self_iff]
  cases production
  simp [Production.unindented]

theorem Production.unindented_unindented (production : Production) :
    production.unindented.unindented = production.unindented := by
  simp only [Production.unindented, trimStart_trimStart]

namespace RuleText

def unindentedEntry (entry : Symbol × List Production) : Symbol × List Production :=
  (entry.1, entry.2.map Production.unindented)

private theorem parseAlternative_finish {piece : List Char} {production : Production}
    (read : parseAlternative (trim piece) = .ok production) :
    ∀ last, production.replacement.getLast? = some last → isBlank last = false := by
  -- With a weight or without, the replacement was trimmed before its backslashes were dropped.
  have ends : ∀ {text replacement : List Char}, unescape (trim text) = .ok replacement →
      ∀ last, replacement.getLast? = some last → isBlank last = false := by
    intro text replacement replaced
    rw [getLast?_of_unescape replaced]
    exact (trimEnd_eq_self_iff _).mp (trimEnd_trim text)
  unfold parseAlternative at read
  split at read
  · obtain ⟨weight, -, read⟩ := Except.bind_eq_ok_iff.mp read
    obtain ⟨replacement, replaced, read⟩ := Except.bind_eq_ok_iff.mp read
    cases read
    exact ends replaced
  · obtain ⟨replacement, replaced, read⟩ := Except.bind_eq_ok_iff.mp read
    cases read
    exact ends replaced

private theorem ofReadable_readable : OfReadable Production.Readable :=
  fun oneLine read => ⟨ofReadable_wellFormed oneLine read, parseAlternative_finish read⟩

theorem EntryOf.trimmedEntry_eq {entry : Symbol × List Production}
    (kind : EntryOf Production.Readable entry) : trimmedEntry entry = unindentedEntry entry :=
  congrArg (Prod.mk entry.1)
    (List.map_congr_left fun production member => (kind.productions production member).trimmed_eq)

private theorem unindentedEntry_eq_self_iff (entry : Symbol × List Production) :
    unindentedEntry entry = entry ↔
      ∀ production ∈ entry.2, ∀ first, production.replacement.head? = some first →
        isBlank first = false := by
  simp only [← Production.unindented_eq_self_iff]
  rw [← map_eq_self_iff]
  exact ⟨congrArg Prod.snd, congrArg (Prod.mk entry.1)⟩

end RuleText

/-- No replacement of the table begins with a blank. -/
def Rules.Unindented (rules : Rules) : Prop :=
  ∀ entry ∈ rules.entries, ∀ production ∈ entry.2, ∀ first,
    production.replacement.head? = some first → isBlank first = false

theorem Rules.unindented_iff (rules : Rules) :
    rules.Unindented ↔ rules.entries.map RuleText.unindentedEntry = rules.entries := by
  simp only [Rules.Unindented, RuleText.map_eq_self_iff, RuleText.unindentedEntry_eq_self_iff]

/-- A table that was read is read from its own text without the blanks that its replacements begin
with. -/
theorem Rules.parse_toText_of_parse {text : List Char} {rules : Rules}
    (read : Rules.parse text = .ok rules) :
    ∃ again, Rules.parse rules.toText = .ok again ∧
      again.entries = rules.entries.map RuleText.unindentedEntry := by
  have readable := parse_entriesOf RuleText.ofReadable_readable read
  obtain ⟨again, parsed, entries⟩ := parse_toText (parse_wellFormed read)
  refine ⟨again, parsed, entries.trans ?_⟩
  exact List.map_congr_left fun entry member => (readable entry member).trimmedEntry_eq

/-- A text that is read says a table that its own text says again, but for the blanks at the starts
of replacements. The table is the same exactly if there are none, and the one without them is read
from its own text. -/
theorem Rules.reread_of_parse {text : List Char} {rules : Rules}
    (read : Rules.parse text = .ok rules) :
    ∃ again, Rules.parse rules.toText = .ok again ∧
      again.entries = rules.entries.map RuleText.unindentedEntry ∧
      (again = rules ↔ rules.Unindented) ∧
      Rules.parse again.toText = .ok again := by
  obtain ⟨again, parsed, entries⟩ := parse_toText_of_parse read
  refine ⟨again, parsed, entries, ?_, ?_⟩
  · rw [rules.unindented_iff, ← entries]
    exact ⟨congrArg Rules.entries, eq_of_entries⟩
  · -- What was read from the first text is unindented, so nothing is lost from it.
    obtain ⟨third, reparsed, kept⟩ := parse_toText_of_parse parsed
    have same : again.entries.map RuleText.unindentedEntry = again.entries := by
      rw [entries, List.map_map]
      refine List.map_congr_left fun entry _ => congrArg (Prod.mk entry.1) ?_
      simp [RuleText.unindentedEntry, Production.unindented_unindented]
    rw [reparsed, eq_of_entries (kept.trans same)]

theorem Rules.reread_of_parse_orchard :
    let rules : Rules := .ofList [('F', ⟨0.5, []⟩), ('F', ⟨1, " [+F]".toList⟩)]
    Rules.parse "# orchard\nF -> 0.5: | \\ [+F]".toList = .ok rules ∧
      ∃ again, Rules.parse rules.toText = .ok again ∧
        again.entries = rules.entries.map RuleText.unindentedEntry ∧
        (again = rules ↔ rules.Unindented) ∧
        Rules.parse again.toText = .ok again := by
  intro rules
  have read : Rules.parse "# orchard\nF -> 0.5: | \\ [+F]".toList = .ok rules := rfl
  exact ⟨read, reread_of_parse read⟩

/-- A replacement that begins with a blank can be read, but its table does not survive its own
text. -/
theorem Rules.reread_indented :
    let rules : Rules := .ofList [('F', ⟨1, " F".toList⟩)]
    Rules.parse "F -> \\ F".toList = .ok rules ∧
      Rules.parse rules.toText = .ok (.ofList [('F', ⟨1, "F".toList⟩)]) ∧
      Rules.parse rules.toText ≠ .ok rules := by
  intro rules
  have read : Rules.parse "F -> \\ F".toList = .ok rules := rfl
  obtain ⟨again, parsed, entries⟩ := parse_toText_of_parse read
  obtain rfl : again = .ofList [('F', ⟨1, "F".toList⟩)] := eq_of_entries entries
  refine ⟨read, parsed, fun same => ?_⟩
  have lengths := congrArg (fun table => table.entries.map fun entry =>
    entry.2.map fun production => production.replacement.length)
    (Except.ok.inj (parsed.symm.trans same))
  revert lengths
  decide

end Grove
