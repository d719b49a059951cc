import Sparring.Difficulty.Profile
import Sparring.Text.Path

/-!
# Engine settings

How engines are launched, and the options an engine is given once, when it is created. Budgets
are not among them: those come with every search.
-/

namespace Sparring

/-- How engines are launched and configured. -/
structure EngineSettings where
  /-- The program to run. -/
  program : String
  /-- Its arguments. -/
  args : List String
  /-- The directory that models are looked up in. -/
  weightsDir : Option String
  /-- Network cache entries of one engine. -/
  cacheSize : UInt32
deriving DecidableEq, Repr

/-- The stock settings. -/
def EngineSettings.stock : EngineSettings := ⟨"lc0", [], none, 20000⟩

instance : Inhabited EngineSettings := ⟨.stock⟩

/-- An option of an engine: its name and its value. -/
abbrev EngineOption := String × String

namespace EngineSettings

/-- The weights file of a model. -/
def weightsFile (s : EngineSettings) (model : String) : String :=
  match s.weightsDir with
  | some dir => joinPath dir model
  | none => model

/-- The options an engine for a profile is created with, in order. -/
def options (s : EngineSettings) (p : Profile) : List EngineOption :=
  [("WeightsFile", s.weightsFile p.model),
    ("Temperature", p.temperature.toText),
    ("NNCacheSize", toString s.cacheSize)]

end EngineSettings

end Sparring
