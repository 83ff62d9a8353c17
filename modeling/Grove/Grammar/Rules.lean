/-!
# Production rules

A species grows from a table that gives each symbol an ordered list of weighted productions. The
table is kept in the order of its symbols, each of which has one entry.
-/

set_option autoImplicit false

namespace Grove

abbrev Symbol := Char

abbrev Word := List Symbol

structure Production where
  weight : Float32
  replacement : Word
  deriving BEq

/-- Productions by symbol, in increasing order of the symbols. -/
structure Rules where
  entries : List (Symbol × List Production) := []
  sorted : entries.Pairwise (fun left right => left.1 < right.1) := by exact .nil

namespace Rules

instance : BEq Rules where
  beq left right := left.entries == right.entries

/-- The table without entries. -/
def empty : Rules := {}

/-- Changes the entry of a symbol, which starts out without productions. -/
def updateEntries (symbol : Symbol) (update : List Production → List Production) :
    List (Symbol × List Production) → List (Symbol × List Production)
  | [] => [(symbol, update [])]
  | (head, alternatives) :: rest =>
      if symbol < head then (symbol, update []) :: (head, alternatives) :: rest
      else if symbol = head then (head, update alternatives) :: rest
      else (head, alternatives) :: updateEntries symbol update rest

theorem mem_updateEntries {symbol : Symbol} {update : List Production → List Production}
    {entries : List (Symbol × List Production)} {entry : Symbol × List Production}
    (member : entry ∈ updateEntries symbol update entries) :
    entry.1 = symbol ∨ entry ∈ entries := by
  induction entries with
  | nil =>
      simp only [updateEntries, List.mem_singleton] at member
      exact Or.inl (by rw [member])
  | cons head rest ih =>
      obtain ⟨key, alternatives⟩ := head
      simp only [updateEntries] at member
      split at member
      · rcases List.mem_cons.mp member with rfl | kept
        · exact Or.inl rfl
        · exact Or.inr kept
      · split at member
        · rename_i equal
          rcases List.mem_cons.mp member with rfl | kept
          · exact Or.inl equal.symm
          · exact Or.inr (List.mem_cons_of_mem _ kept)
        · rcases List.mem_cons.mp member with rfl | kept
          · exact Or.inr List.mem_cons_self
          · exact (ih kept).imp_right (List.mem_cons_of_mem _)

/-- Changing an entry keeps the order of the symbols. -/
theorem pairwise_updateEntries {symbol : Symbol} {update : List Production → List Production}
    {entries : List (Symbol × List Production)}
    (sorted : entries.Pairwise (fun left right => left.1 < right.1)) :
    (updateEntries symbol update entries).Pairwise (fun left right => left.1 < right.1) := by
  induction entries with
  | nil => simp [updateEntries]
  | cons head rest ih =>
      obtain ⟨key, alternatives⟩ := head
      obtain ⟨below, restSorted⟩ := List.pairwise_cons.mp sorted
      simp only [updateEntries]
      split
      · rename_i smaller
        refine List.pairwise_cons.mpr ⟨fun entry member => ?_, sorted⟩
        rcases List.mem_cons.mp member with rfl | member
        · exact smaller
        · exact Char.lt_trans smaller (below entry member)
      · rename_i notSmaller
        split
        · exact List.pairwise_cons.mpr ⟨below, restSorted⟩
        · rename_i different
          refine List.pairwise_cons.mpr ⟨fun entry member => ?_, ih restSorted⟩
          rcases mem_updateEntries member with same | member
          · show key < entry.1
            rw [same]
            exact Std.lt_of_le_of_ne (Char.not_lt.mp notSmaller) (Ne.symm different)
          · exact below entry member

def update (rules : Rules) (symbol : Symbol) (change : List Production → List Production) :
    Rules where
  entries := updateEntries symbol change rules.entries
  sorted := pairwise_updateEntries rules.sorted

def append (rules : Rules) (symbol : Symbol) (productions : List Production) : Rules :=
  rules.update symbol (· ++ productions)

def push (rules : Rules) (symbol : Symbol) (production : Production) : Rules :=
  rules.append symbol [production]

def insert (rules : Rules) (symbol : Symbol) (productions : List Production) : Rules :=
  rules.update symbol fun _ => productions

/-- The table with one production after the other. -/
def ofList (productions : List (Symbol × Production)) : Rules :=
  productions.foldl (fun rules entry => rules.push entry.1 entry.2) empty

/-- The productions of a symbol; there are none for a terminal. -/
def alternatives (rules : Rules) (symbol : Symbol) : List Production :=
  (rules.entries.lookup symbol).getD []

/-- The productions of a symbol, if it is not a terminal. -/
def get? (rules : Rules) (symbol : Symbol) : Option (List Production) :=
  (rules.entries.lookup symbol).filter fun alternatives => !alternatives.isEmpty

/-- Whether all symbols are terminals. -/
def isEmpty (rules : Rules) : Bool :=
  rules.entries.all fun entry => entry.2.isEmpty

end Rules

end Grove
