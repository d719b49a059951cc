import Sparring.Number.Binary

/-!
# TOML values

The value tree of a TOML document. A table keeps its entries in the order of the document, and no
key stands in a table twice. An array of tables is an array like any other.
-/

namespace Sparring.Toml

/-- A value. -/
inductive Value where
  | str (s : String)
  | int (n : Int64)
  | float (x : Double)
  | bool (b : Bool)
  /-- A date, a time or both. No setting is one, so nothing more is kept of it. -/
  | datetime
  | array (items : List Value)
  | table (entries : List (String × Value))

instance : Inhabited Value := ⟨.bool false⟩

/-- The entries of a table, by their keys. -/
abbrev Entries := List (String × Value)

end Sparring.Toml
