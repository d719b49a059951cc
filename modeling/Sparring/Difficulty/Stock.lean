import Sparring.Difficulty.Table

/-!
# The stock table

Ten buckets of equal width, from a network of about 200 rating points up to one of about 2700.
Every search is capped at a single node, so the choice of move comes straight from the network.
-/

namespace Sparring.Table

/-- A row of the stock table: its threshold in tenths, its depth and its model. -/
def stockRow (tenths : Nat) (depth : UInt32) (model : String) : Bucket where
  threshold := .ofRatio .double false tenths 10
  profile :=
    { timeBudget := 200
      nodeBudget := 1
      depthBudget := depth
      temperature := .ofRatio .single false 1 2
      model := model }

/-- The rows of the stock table. -/
def stockRows : List Bucket :=
  [stockRow 1 1 "elo-206",
    -- Much stronger than its name on its own; the temperature keeps it honest.
    stockRow 2 1 "elo-416",
    stockRow 3 2 "elo-754",
    stockRow 4 3 "elo-999",
    stockRow 5 4 "maia-1100.pb",
    stockRow 6 5 "maia-1500.pb",
    stockRow 7 6 "maia-1900.pb",
    stockRow 8 8 "elo-2100",
    stockRow 9 13 "elo-2304",
    stockRow 10 18 "elo-2701"]

/-- The stock table. -/
def stock : Table := ⟨stockRows, by decide +kernel⟩

instance : Inhabited Table := ⟨stock⟩

end Sparring.Table
