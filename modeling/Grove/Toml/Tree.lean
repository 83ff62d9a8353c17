import Grove.Toml.Value

/-!
# Growing a document

The statements of a document add to a tree of tables. A table may be opened by a header once. A
table that a header only passes through may still be opened; one made by a dotted key may not, and
dotted keys do not add to tables that a header opened.
-/

set_option autoImplicit false

namespace Grove.Toml

inductive Origin where
  /-- A header opened it, or it is the document. -/
  | header
  /-- A header passed through it. -/
  | passage
  /-- A dotted key passed through it. -/
  | dotted
  deriving DecidableEq

inductive Node where
  | value (value : Value)
  | table (origin : Origin) (entries : List (Key × Node))
  /-- The tables of an array that headers add to. -/
  | tables (elements : List (List (Key × Node)))

abbrev Entries := List (Key × Node)

namespace Entries

/-- Puts a node under a key, in place of the one that was there. -/
def set (entries : Entries) (key : Key) (node : Node) : Entries :=
  match entries with
  | [] => [(key, node)]
  | (head, old) :: rest =>
      if head = key then (head, node) :: rest else (head, old) :: set rest key node

def addNew? (entries : Entries) (key : Key) (node : Node) : Option Entries :=
  match entries.lookup key with
  | none => some (entries.set key node)
  | some _ => none

/-- Changes the table at the end of a path, making the tables that are missing on the way. The way
leads into the last element of an array of tables. -/
def changeAt? (way : Origin) (change : Origin → Entries → Option Entries) :
    List Key → Origin → Entries → Option Entries
  | [], origin, entries => change origin entries
  | key :: path, _, entries =>
      match entries.lookup key with
      | none => do
          let inner ← changeAt? way change path way []
          return entries.set key (.table way inner)
      | some (.value _) => none
      | some (.tables elements) => do
          let last ← elements.getLast?
          let inner ← changeAt? way change path .header last
          return entries.set key (.tables (elements.dropLast ++ [inner]))
      | some (.table origin inner) =>
          if way = .dotted ∧ origin = .header then none
          else do
            let inner ← changeAt? way change path origin inner
            return entries.set key (.table origin inner)

/-- Gives a value to a key of a table, which a dotted path leads to. -/
def assign? (path : List Key) (key : Key) (value : Value) (entries : Entries) : Option Entries :=
  changeAt? .dotted (fun origin inner =>
    if path ≠ [] ∧ origin ≠ .dotted then none else inner.addNew? key (.value value))
    path .header entries

def assignUnder? (header path : List Key) (key : Key) (value : Value) (entries : Entries) :
    Option Entries :=
  changeAt? .passage (fun _ inner => inner.assign? path key value) header .header entries

def openTable? (path : List Key) (key : Key) (entries : Entries) : Option Entries :=
  changeAt? .passage (fun _ inner =>
    match inner.lookup key with
    | none => some (inner.set key (.table .header []))
    | some (.table .passage children) => some (inner.set key (.table .header children))
    | some _ => none) path .header entries

def openElement? (path : List Key) (key : Key) (entries : Entries) : Option Entries :=
  changeAt? .passage (fun _ inner =>
    match inner.lookup key with
    | none => some (inner.set key (.tables [[]]))
    | some (.tables elements) => some (inner.set key (.tables (elements ++ [[]])))
    | some _ => none) path .header entries

end Entries

mutual

def Node.toValue : Node → Value
  | .value value => value
  | .table _ entries => .table (entriesValue entries)
  | .tables elements => .array (elementsValue elements)

def entriesValue : List (Key × Node) → List (Key × Value)
  | [] => []
  | (key, node) :: rest => (key, node.toValue) :: entriesValue rest

def elementsValue : List (List (Key × Node)) → List Value
  | [] => []
  | entries :: rest => .table (entriesValue entries) :: elementsValue rest

end

end Grove.Toml
