import Grove.Grammar.Rules
import Mathlib.Data.List.Perm.Basic

/-!
# Entries of a table

What a symbol's entry becomes when productions are appended to it, and that a table is put together
again when its entries are appended in their order.
-/

set_option autoImplicit false

namespace Grove.Rules

theorem eq_of_entries {left right : Rules} (same : left.entries = right.entries) :
    left = right := by
  cases left
  cases right
  obtain rfl := same
  rfl

private theorem updateEntries_of_above {symbol : Symbol}
    (update : List Production → List Production) {entries : List (Symbol × List Production)}
    (above : ∀ entry ∈ entries, entry.1 < symbol) :
    updateEntries symbol update entries = entries ++ [(symbol, update [])] := by
  induction entries with
  | nil => rfl
  | cons entry rest ih =>
      obtain ⟨below, above⟩ := List.forall_mem_cons.mp above
      have notBelow : ¬symbol < entry.1 := Char.lt_asymm below
      have other : symbol ≠ entry.1 := Ne.symm (Char.ne_of_lt below)
      rw [updateEntries, if_neg notBelow, if_neg other, ih above, List.cons_append]

theorem entries_foldl_append {entries : List (Symbol × List Production)} {rules : Rules}
    (sorted : (rules.entries ++ entries).Pairwise fun left right => left.1 < right.1) :
    (entries.foldl (fun rules entry => rules.append entry.1 entry.2) rules).entries =
      rules.entries ++ entries := by
  induction entries generalizing rules with
  | nil => exact (List.append_nil _).symm
  | cons entry rest ih =>
      have above : ∀ old ∈ rules.entries, old.1 < entry.1 := fun old member =>
        (List.pairwise_append.mp sorted).2.2 old member entry List.mem_cons_self
      have appended : (rules.append entry.1 entry.2).entries = rules.entries ++ [entry] :=
        updateEntries_of_above _ above
      rw [List.foldl_cons, ih, appended, List.append_assoc, List.singleton_append]
      rwa [appended, List.append_assoc, List.singleton_append]

theorem forall_append {rules : Rules} {symbol : Symbol} {productions : List Production}
    {holds : Symbol × List Production → Prop} (old : ∀ entry ∈ rules.entries, holds entry)
    (new : holds (symbol, productions))
    (both : ∀ before, holds (symbol, before) → holds (symbol, before ++ productions)) :
    ∀ entry ∈ (rules.append symbol productions).entries, holds entry := by
  change ∀ entry ∈ updateEntries symbol (· ++ productions) rules.entries, holds entry
  generalize rules.entries = entries at old
  induction entries with
  | nil => simpa [updateEntries] using new
  | cons entry rest ih =>
      obtain ⟨key, before⟩ := entry
      obtain ⟨first, others⟩ := List.forall_mem_cons.mp old
      rw [updateEntries]
      split
      · exact List.forall_mem_cons.mpr ⟨by simpa using new, old⟩
      · split
        · rename_i same
          subst same
          exact List.forall_mem_cons.mpr ⟨both before first, others⟩
        · exact List.forall_mem_cons.mpr ⟨first, ih others⟩

/-! ## Looking up a symbol -/

theorem lookup_cons (key : Symbol) (productions : List Production)
    (rest : List (Symbol × List Production)) (symbol : Symbol) :
    ((key, productions) :: rest).lookup symbol =
      if symbol = key then some productions else rest.lookup symbol := by
  by_cases same : symbol = key
  · subst same
    rw [List.lookup_cons_self, if_pos rfl]
  · rw [List.lookup_cons, beq_false_of_ne same, if_neg same]

private theorem lookup_eq_none_of_above {symbol : Symbol}
    {entries : List (Symbol × List Production)}
    (above : ∀ entry ∈ entries, symbol < entry.1) : entries.lookup symbol = none := by
  rw [List.lookup_eq_none_iff]
  intro entry member
  simpa using Char.ne_of_lt (above entry member)

private theorem lookup_updateEntries (symbol : Symbol) (update : List Production → List Production)
    {entries : List (Symbol × List Production)}
    (sorted : entries.Pairwise fun left right => left.1 < right.1) (other : Symbol) :
    (updateEntries symbol update entries).lookup other =
      if other = symbol then some (update ((entries.lookup symbol).getD []))
      else entries.lookup other := by
  induction entries with
  | nil => exact lookup_cons symbol (update []) [] other
  | cons entry rest ih =>
      obtain ⟨key, alternatives⟩ := entry
      obtain ⟨below, restSorted⟩ := List.pairwise_cons.mp sorted
      rw [updateEntries]
      split
      · rename_i before
        have absent : ((key, alternatives) :: rest).lookup symbol = none := by
          refine lookup_eq_none_of_above (List.forall_mem_cons.mpr ⟨before, ?_⟩)
          intro later member
          exact Char.lt_trans before (below later member)
        rw [lookup_cons, absent]
        rfl
      · split
        · rename_i found
          subst found
          by_cases same : other = symbol
          · simp only [lookup_cons, same, if_true, Option.getD_some]
          · simp only [lookup_cons, same, if_false]
        · rename_i different
          rw [lookup_cons, ih restSorted, lookup_cons, lookup_cons, if_neg different]
          by_cases same : other = key
          · subst same
            rw [if_pos rfl, if_pos rfl, if_neg (Ne.symm different)]
          · rw [if_neg same, if_neg same]

private theorem lookup_append (rules : Rules) (symbol : Symbol) (productions : List Production)
    (other : Symbol) :
    (rules.append symbol productions).entries.lookup other =
      Option.merge (· ++ ·) (rules.entries.lookup other)
        (if symbol = other then some productions else none) := by
  have updated := lookup_updateEntries symbol (· ++ productions) rules.sorted other
  refine updated.trans ?_
  by_cases same : symbol = other
  · subst same
    rw [if_pos rfl, if_pos rfl]
    cases rules.entries.lookup symbol <;> rfl
  · rw [if_neg (Ne.symm same), if_neg same, Option.merge_none_right]

private theorem mem_entries_iff {rules : Rules} {entry : Symbol × List Production} :
    entry ∈ rules.entries ↔ rules.entries.lookup entry.1 = some entry.2 := by
  rw [List.lookup_eq_some_iff]
  constructor
  · intro member
    obtain ⟨before, after, split⟩ := List.append_of_mem member
    refine ⟨before, after, split, fun earlier place => ?_⟩
    have sorted := split ▸ rules.sorted
    have below := (List.pairwise_append.mp sorted).2.2 earlier place entry List.mem_cons_self
    simpa using (Char.ne_of_lt below).symm
  · rintro ⟨before, after, split, -⟩
    rw [split]
    exact List.mem_append_right before List.mem_cons_self

/-- A table is determined by what it says of every symbol. -/
theorem eq_of_lookup {left right : Rules}
    (same : ∀ symbol, left.entries.lookup symbol = right.entries.lookup symbol) :
    left = right := by
  have nodup : ∀ rules : Rules, rules.entries.Nodup := fun rules =>
    rules.sorted.imp fun below equal => Char.ne_of_lt below (congrArg Prod.fst equal)
  have members : left.entries.Perm right.entries := by
    rw [List.perm_ext_iff_of_nodup (nodup left) (nodup right)]
    intro entry
    rw [mem_entries_iff, mem_entries_iff, same]
  refine eq_of_entries (members.eq_of_pairwise ?_ left.sorted right.sorted)
  intro first second _ _ below above
  exact absurd above (Char.lt_asymm below)

/-! ## Joining tables -/

/-- A table with one list of productions appended after the other. -/
def appendAll (rules : Rules) (said : List (Symbol × List Production)) : Rules :=
  said.foldl (fun rules entry => rules.append entry.1 entry.2) rules

/-- The table that gives every symbol the productions of one table and then those of another. -/
def join (first second : Rules) : Rules :=
  first.appendAll second.entries

/-- What a succession of entries says of a symbol, if it says anything. -/
def gathered (symbol : Symbol) : List (Symbol × List Production) → Option (List Production)
  | [] => none
  | entry :: rest =>
      Option.merge (· ++ ·) (if entry.1 = symbol then some entry.2 else none)
        (gathered symbol rest)

private theorem gathered_append (symbol : Symbol) (first second : List (Symbol × List Production)) :
    gathered symbol (first ++ second) =
      Option.merge (· ++ ·) (gathered symbol first) (gathered symbol second) := by
  induction first with
  | nil => exact Option.merge_none_left.symm
  | cons entry first ih =>
      rw [List.cons_append, gathered, ih, gathered]
      exact (Std.Associative.assoc _ _ _).symm

private theorem gathered_of_sorted {symbol : Symbol} {entries : List (Symbol × List Production)}
    (sorted : entries.Pairwise fun left right => left.1 < right.1) :
    gathered symbol entries = entries.lookup symbol := by
  induction entries with
  | nil => rfl
  | cons entry rest ih =>
      obtain ⟨below, restSorted⟩ := List.pairwise_cons.mp sorted
      obtain ⟨key, productions⟩ := entry
      rw [gathered, ih restSorted, lookup_cons]
      by_cases same : key = symbol
      · subst same
        rw [if_pos rfl, if_pos rfl, lookup_eq_none_of_above below, Option.merge_none_right]
      · rw [if_neg same, if_neg (Ne.symm same), Option.merge_none_left]

private theorem lookup_appendAll (rules : Rules) (said : List (Symbol × List Production))
    (symbol : Symbol) :
    (rules.appendAll said).entries.lookup symbol =
      Option.merge (· ++ ·) (rules.entries.lookup symbol) (gathered symbol said) := by
  induction said generalizing rules with
  | nil => exact Option.merge_none_right.symm
  | cons entry rest ih =>
      have rest := ih (rules.append entry.1 entry.2)
      rw [lookup_append] at rest
      exact rest.trans (Std.Associative.assoc _ _ _)

private theorem lookup_join (first second : Rules) (symbol : Symbol) :
    (first.join second).entries.lookup symbol =
      Option.merge (· ++ ·) (first.entries.lookup symbol) (second.entries.lookup symbol) := by
  rw [join, lookup_appendAll, gathered_of_sorted second.sorted]

theorem alternatives_join (first second : Rules) (symbol : Symbol) :
    (first.join second).alternatives symbol =
      first.alternatives symbol ++ second.alternatives symbol := by
  unfold alternatives
  rw [lookup_join]
  cases first.entries.lookup symbol <;> cases second.entries.lookup symbol <;> simp

theorem appendAll_append (first second : List (Symbol × List Production)) :
    empty.appendAll (first ++ second) = (empty.appendAll first).join (empty.appendAll second) := by
  refine eq_of_lookup fun symbol => ?_
  have nothing : empty.entries.lookup symbol = none := rfl
  simp only [lookup_join, lookup_appendAll, gathered_append, nothing, Option.merge_none_left]

end Grove.Rules
