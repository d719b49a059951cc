import Sparring.Engine.Call
import Sparring.Handoff
import Sparring.Text.Quoted

/-!
# Errors of the service

Why a move request is not answered with a move. What is wrong with a request is told apart from
what went wrong while it was served, and each error has one wording and one status.
-/

namespace Sparring

/-- What is wrong with a request. -/
inductive RequestError where
  | missingFen
  | emptyFen
  | fenWithLineBreak
  | missingDifficulty
  | notANumber (raw : String)
  | notFinite (raw : String)
deriving DecidableEq, Repr

/-- The wording of what is wrong with a request. -/
def RequestError.message : RequestError → String
  | missingFen => "missing fen"
  | emptyFen => "empty fen"
  | fenWithLineBreak => "fen contains a line break"
  | missingDifficulty => "missing difficulty"
  | notANumber raw => "difficulty is not a number: " ++ quoteText raw
  | notFinite raw => "difficulty must be finite: " ++ quoteText raw

/-- Why there is no move. -/
inductive ServiceError where
  | invalidRequest (e : RequestError)
  | noLegalMove
  | engine (causes : Causes)
  | handoff (e : HandoffError)
deriving DecidableEq, Repr

namespace ServiceError

/-- The wording of an error. -/
def message : ServiceError → String
  | invalidRequest e => "invalid request: " ++ e.message
  | noLegalMove => "position has no legal moves"
  | engine causes => "engine error: " ++ causes.text
  | handoff e => e.message

/-- The HTTP status of an error. -/
def status : ServiceError → Nat
  | invalidRequest _ => 400
  | noLegalMove => 422
  | engine _ => 500
  | handoff _ => 500

end ServiceError

end Sparring
