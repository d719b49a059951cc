import Sparring.Difficulty.Profile
import Sparring.Text.Quoted
import Sparring.Text.Json

/-!
# Difficulty tables

A table cuts the line of difficulties into buckets. Each row takes the difficulties up to and
including its threshold that no earlier row has taken, and the last row takes all that are left,
so every difficulty, a NaN too, has exactly one row.

A list of rows is a table when it is not empty, its thresholds are finite and strictly
increasing, and no model is given two temperatures: the temperature is set when an engine is
started, so a second one would never take effect. `Table.fault?` finds the first row at fault.
-/

namespace Sparring

/-- A row of a table: the profile for the difficulties up to a threshold. -/
structure Bucket where
  threshold : Double
  profile : Profile
deriving DecidableEq

/-- Why a list of rows is no table. -/
inductive TableError where
  | empty
  | notFinite (index : Nat) (value : Double)
  | notIncreasing (index : Nat) (value : Double)
  | conflictingTemperature (model : String) (first second : Single)
deriving DecidableEq

/-- The wording of an error. -/
def TableError.message : TableError → String
  | empty => "difficulty table has no buckets"
  | notFinite index value =>
    "bucket " ++ toString index ++ ": threshold " ++ value.toText ++ " is not finite"
  | notIncreasing index value =>
    "bucket " ++ toString index ++ ": threshold " ++ value.toText ++
      " does not exceed the previous threshold"
  | conflictingTemperature model first second =>
    "model " ++ quoteText model ++ " is used with temperatures " ++ first.toText ++ " and " ++
      second.toText

namespace Table

/-- The first fault among the rows from `index` on. `previous` is the threshold before them and
`seen` holds the temperature each model was first given. -/
def faultFrom? (index : Nat) (previous : Option Double) (seen : List (String × Single)) :
    List Bucket → Option TableError
  | [] => none
  | row :: rest =>
    let model := row.profile.model
    let temperature := row.profile.temperature
    if ¬ row.threshold.isFinite then some (.notFinite index row.threshold)
    else if previous.any (row.threshold.le ·) then some (.notIncreasing index row.threshold)
    else
      match seen.lookup model with
      | some first =>
        if first.eqv temperature then faultFrom? (index + 1) (some row.threshold) seen rest
        else some (.conflictingTemperature model first temperature)
      | none =>
        faultFrom? (index + 1) (some row.threshold) ((model, temperature) :: seen) rest

/-- The first fault of a list of rows. -/
def fault? : List Bucket → Option TableError
  | [] => some .empty
  | rows => faultFrom? 0 none [] rows

end Table

/-- A difficulty table: rows without a fault. -/
structure Table where
  rows : List Bucket
  faultless : Table.fault? rows = none
deriving DecidableEq

namespace Table

/-- The table with the given rows, or their first fault. -/
def ofRows (rows : List Bucket) : Except TableError Table :=
  match h : fault? rows with
  | none => .ok ⟨rows, h⟩
  | some e => .error e

theorem rows_ne_nil (t : Table) : t.rows ≠ [] := by
  intro h
  have := t.faultless
  simp [h, fault?] at this

/-- The profile for a difficulty among a first row and those after it. -/
def resolveFrom (difficulty : Double) : Bucket → List Bucket → Profile
  | row, [] => row.profile
  | row, next :: rest =>
    if difficulty.le row.threshold then row.profile else resolveFrom difficulty next rest

/-- The profile for a difficulty. -/
def resolve (t : Table) (difficulty : Double) : Profile :=
  resolveFrom difficulty (t.rows.head t.rows_ne_nil) t.rows.tail

/-- The first profile of each model, in order. -/
def firstOfEachModel : List Profile → List Profile
  | [] => []
  | p :: rest => p :: (firstOfEachModel rest).filter (·.model ≠ p.model)

/-- The first profile of each model in the table, in order. -/
def distinctModels (t : Table) : List Profile := firstOfEachModel (t.rows.map (·.profile))

end Table

/-- A row in a serialized table. -/
def Bucket.toJson (row : Bucket) : Json :=
  .obj [
    ("max_difficulty", .number row.threshold.toJson),
    ("time_budget_ms", .ofNat row.profile.timeBudget.toNat),
    ("node_budget", .ofNat row.profile.nodeBudget.toNat),
    ("depth_budget", .ofNat row.profile.depthBudget.toNat),
    ("temperature", .number row.profile.temperature.toJson),
    ("model_id", .str row.profile.model)]

/-- A serialized table. -/
def Table.toJson (t : Table) : Json := .arr (t.rows.map Bucket.toJson)

end Sparring
