import Sparring.Difficulty.Profile
import Sparring.Engine.Completion

/-!
# Calls to an engine

Everything a request asks of an engine is one of five calls. A call comes back with success, or
with an error that has a chain of causes, or it crashes the task that made it. The answer to a
`go` call says only that the search has been submitted; its completion arrives on its own.
-/

namespace Sparring

/-- Why something failed: the outermost cause first. -/
abbrev Causes := List String

/-- The causes in one line. -/
def Causes.text (causes : Causes) : String := ": ".intercalate causes

/-- A call to an engine, or to what creates engines. -/
inductive EngineCall where
  | create (model : String)
  | setOption (model name value : String)
  | newGame (model : String)
  | setPosition (model fen : String)
  | go (model : String) (search : SearchId) (limits : SearchLimits)
deriving DecidableEq, Repr

/-- The model whose engine is called. -/
def EngineCall.model : EngineCall → String
  | create model => model
  | setOption model _ _ => model
  | newGame model => model
  | setPosition model _ => model
  | go model _ _ => model

/-- How a call came back. -/
inductive CallResult where
  | ok
  | failed (causes : Causes)
  | crashed (message : String)
deriving DecidableEq, Repr

end Sparring
