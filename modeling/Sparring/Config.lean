import Sparring.Difficulty.Stock
import Sparring.Engine.Settings
import Sparring.Handoff

/-!
# Configuration

What a service is set up with. It is built in layers, of which later ones win: the stock
configuration, a document, and overrides. An override leaves alone what it does not name, and can
switch the two switches in one direction only.
-/

namespace Sparring

/-- The configuration of a service. -/
structure Config where
  /-- The address that the service listens on. -/
  address : String
  policy : FailurePolicy
  /-- Whether all engines are created before the first request. -/
  preload : Bool
  engine : EngineSettings
  table : Table
deriving DecidableEq

/-- The stock configuration. -/
def Config.stock : Config := ⟨"0.0.0.0:3002", .respond, true, .stock, .stock⟩

instance : Inhabited Config := ⟨.stock⟩

/-- Values that take precedence over a configuration. -/
structure Overrides where
  address : Option String
  program : Option String
  /-- The arguments of the engine; without any, those of the configuration stay. -/
  args : List String
  weightsDir : Option String
  cacheSize : Option UInt32
  /-- Makes a violation end the process. -/
  abortOnViolation : Bool
  /-- Leaves engines to be created when they are first asked for. -/
  noPreload : Bool
deriving DecidableEq, Repr

/-- Overrides that name nothing. -/
def Overrides.none : Overrides := ⟨.none, .none, [], .none, .none, false, false⟩

instance : Inhabited Overrides := ⟨.none⟩

namespace EngineSettings

/-- The settings under overrides. -/
def override (s : EngineSettings) (o : Overrides) : EngineSettings where
  program := o.program.getD s.program
  args := if o.args.isEmpty then s.args else o.args
  weightsDir := o.weightsDir <|> s.weightsDir
  cacheSize := o.cacheSize.getD s.cacheSize

end EngineSettings

namespace Config

/-- The configuration under overrides. -/
def override (c : Config) (o : Overrides) : Config where
  address := o.address.getD c.address
  policy := if o.abortOnViolation then .abort else c.policy
  preload := c.preload && !o.noPreload
  engine := c.engine.override o
  table := c.table

/-- The configuration under several overrides, of which later ones win. -/
def overrideAll (c : Config) (os : List Overrides) : Config := os.foldl override c

end Config

end Sparring
