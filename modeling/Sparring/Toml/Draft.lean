import Sparring.Toml.Value

/-!
# Tables under construction

While a document is read its tables may still grow, and how a table came to be says in what way.
A table that a header opened takes the settings behind that header and is never opened again. A
table that was only implied, as the parent of a longer header, may still be opened once, and moves
to the end of its parent then. A table that came from a key with points grows by such keys alone.
A value never grows, an inline table included, and of an array of tables the last element does.

A draft is the list of entries of the table at the top. Every function here fails where the
document says something twice.
-/

namespace Sparring.Toml

/-- How a table came to be. -/
inductive Origin where
  /-- It has a header of its own. -/
  | header
  /-- It is the parent in a longer header. -/
  | implied
  /-- It is part of a key with points. -/
  | dotted
deriving DecidableEq

/-- What a key stands for in a draft. -/
inductive Node where
  | value (v : Value)
  | table (origin : Origin) (entries : List (String × Node))
  /-- An array of tables that each have a header. -/
  | tables (elements : List (List (String × Node)))

/-- The entries of a table under construction. -/
abbrev Draft := List (String × Node)

namespace Draft

/-- Changes what a key stands for, or gives it a meaning at the end. -/
def change (key : String) (f : Option Node → Option Node) : Draft → Option Draft
  | [] => (f none).map fun node => [(key, node)]
  | (k, node) :: rest =>
    if k = key then (f (some node)).map fun node => (key, node) :: rest
    else (change key f rest).map ((k, node) :: ·)

/-- Changes the last element. -/
def changeLast {α : Type} (f : α → Option α) : List α → Option (List α)
  | [] => none
  | [a] => (f a).map ([·])
  | a :: rest => (changeLast f rest).map (a :: ·)

/-- Changes the table that a header leads to. Tables that are not there are implied. -/
def within (f : Draft → Option Draft) : List String → Draft → Option Draft
  | [], d => f d
  | k :: path, d =>
    d.change k fun
      | none => (within f path []).map (.table .implied)
      | some (.table origin inner) => (within f path inner).map (.table origin)
      | some (.tables elements) => (changeLast (within f path) elements).map .tables
      | some (.value _) => none

/-- Opens a table of a table by its header. -/
def openTable (key : String) (d : Draft) : Option Draft :=
  let opened (inner : Draft) : Option Draft :=
    some (d.filter (·.1 ≠ key) ++ [(key, .table .header inner)])
  match d.lookup key with
  | none => opened []
  | some (.table .implied inner) => opened inner
  | some _ => none

/-- Opens a new element in an array of tables by its header. -/
def openElement (key : String) (d : Draft) : Option Draft :=
  d.change key fun
    | none => some (.tables [[]])
    | some (.tables elements) => some (.tables (elements ++ [[]]))
    | some _ => none

/-- Gives a key a value, behind the parts of the key in front of its last. -/
def assign (last : String) (v : Value) : List String → Draft → Option Draft
  | [], d =>
    d.change last fun
      | none => some (.value v)
      | some _ => none
  | k :: path, d =>
    d.change k fun
      | none => (assign last v path []).map (.table .dotted)
      | some (.table origin inner) =>
        if origin = .header ∨ (origin = .implied ∧ path = []) then none
        else (assign last v path inner).map (.table origin)
      | some (.tables elements) =>
        if path = [] then none else (changeLast (assign last v path) elements).map .tables
      | some (.value _) => none

end Draft

mutual

/-- The value of a node. -/
def Node.toValue : Node → Value
  | .value v => v
  | .table _ entries => .table (Draft.toEntries entries)
  | .tables elements => .array (Draft.toValues elements)

/-- The entries of a finished table. -/
def Draft.toEntries : List (String × Node) → Entries
  | [] => []
  | (key, node) :: rest => (key, node.toValue) :: Draft.toEntries rest

/-- The elements of a finished array of tables. -/
def Draft.toValues : List (List (String × Node)) → List Value
  | [] => []
  | d :: rest => .table (Draft.toEntries d) :: Draft.toValues rest

end

end Sparring.Toml
