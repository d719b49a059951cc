import Sparring.Engine.Call
import Sparring.Text.Blank

/-!
# Lines of the engine protocol

What is written to an engine and what is read from it, a line at a time. An engine acknowledges
with `uciok` and `readyok`, and ends a search with a line whose first word is `bestmove`; all
its other lines are passed over.
-/

namespace Sparring.Uci

/-! ## Commands -/

/-- Asks the engine to speak the protocol. -/
def helloCommand : String := "uci"

/-- Tells the engine that the next position is from another game. -/
def newGameCommand : String := "ucinewgame"

/-- Asks the engine to answer when it has caught up. -/
def readyCommand : String := "isready"

/-- Sets an option. -/
def optionCommand (name value : String) : String :=
  "setoption name " ++ name ++ " value " ++ value

/-- Sets the position. -/
def positionCommand (fen : String) : String := "position fen " ++ fen

/-- A limit of a search as words, none if there is no limit. -/
def limitWords (name : String) : Option Nat → List String
  | none => []
  | some n => [name, toString n]

/-- Starts a search. -/
def goCommand (l : SearchLimits) : String :=
  " ".intercalate <|
    ["go", "movetime", toString l.moveTime.toNat] ++
      limitWords "depth" (l.depth.map UInt32.toNat) ++
      limitWords "nodes" (l.nodes.map UInt64.toNat)

/-! ## Replies -/

/-- An acknowledgement. -/
inductive Ack where
  | uciOk
  | readyOk
deriving DecidableEq, Repr

/-- The name of an acknowledgement in a message. -/
def Ack.name : Ack → String
  | uciOk => "UciOk"
  | readyOk => "ReadyOk"

/-- A line of an engine's output. -/
inductive Reply where
  | bestMove (o : Outcome)
  | ack (a : Ack)
  | other
deriving DecidableEq, Repr

/-- What the word after `bestmove` says; the word may be missing. -/
def outcomeOf : Option (List Char) → Outcome
  | none => .noLegalMove
  | some word =>
    if word = "(none)".toList ∨ word = "0000".toList then .noLegalMove
    else
      match Move.readChars word with
      | .ok m => .move m
      | .error e => .unreadable e.message

/-- Reads a line of an engine's output. -/
def Reply.read (line : List Char) : Reply :=
  match words line with
  | first :: rest =>
    if first = "bestmove".toList then .bestMove (outcomeOf rest.head?)
    else if trimBlank line = "uciok".toList then .ack .uciOk
    else if trimBlank line = "readyok".toList then .ack .readyOk
    else .other
  | [] => .other

end Sparring.Uci
