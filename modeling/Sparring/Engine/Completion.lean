import Sparring.Move

/-!
# Searches and how they end

A search is known by its number. When an engine is done with one it reports a completion: the
number, if it knows of a search that was asked for, and an outcome.
-/

namespace Sparring

/-- The number of a search. -/
structure SearchId where
  number : Nat
deriving DecidableEq, Repr, Inhabited

/-- A search in a message, as in `#3`. -/
def SearchId.text (s : SearchId) : String := "#" ++ toString s.number

/-- How a search ended. -/
inductive Outcome where
  | move (m : Move)
  /-- The position has no legal move. -/
  | noLegalMove
  /-- The engine closed its output. -/
  | engineExited
  /-- The engine named a move that cannot be read. -/
  | unreadable (reason : String)
deriving DecidableEq, Repr

/-- What an engine reports at the end of a search. -/
structure Completion where
  /-- The search this answers, or nothing when none was asked for. -/
  search : Option SearchId
  outcome : Outcome
deriving DecidableEq, Repr

end Sparring
