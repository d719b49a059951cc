import Sparring.Engine.Call
import Sparring.Engine.Settings

/-!
# The registry of engines

Loading a network is slow and there are few models, so an engine is created on first use and
kept. Its *setup* is a row of calls: one that creates it and one for each option. Only when all
of them have succeeded does the engine get its entry; a setup that fails leaves no trace, and
the next request for the model starts over.
-/

namespace Sparring

/-- An engine that is ready: its model and the options it has accepted, in order. -/
structure EngineEntry where
  model : String
  options : List EngineOption
deriving DecidableEq, Repr

/-- The engines that are ready, in the order of their creation. -/
structure Registry where
  entries : List EngineEntry
deriving DecidableEq, Repr, Inhabited

namespace Registry

/-- A registry without engines. -/
def empty : Registry := ⟨[]⟩

/-- The entry of a model. -/
def find? (r : Registry) (model : String) : Option EngineEntry :=
  r.entries.find? (·.model = model)

/-- Whether a model has an engine. -/
def contains (r : Registry) (model : String) : Bool := (r.find? model).isSome

/-- The registry with one more engine. -/
def insert (r : Registry) (e : EngineEntry) : Registry := ⟨r.entries ++ [e]⟩

/-- The models that have engines, sorted. -/
def models (r : Registry) : List String :=
  (r.entries.map (·.model)).mergeSort (fun a b => decide (a ≤ b))

end Registry

/-- The setup of an engine under way: which call is outstanding. -/
inductive Setup where
  /-- The engine is being created. -/
  | creating
  /-- It has accepted some options, one is outstanding, and others are to follow. -/
  | configuring (accepted : List EngineOption) (current : EngineOption)
      (remaining : List EngineOption)
deriving DecidableEq, Repr

namespace Setup

/-- The outstanding call of a setup. -/
def call (model : String) : Setup → EngineCall
  | creating => .create model
  | configuring _ (name, value) _ => .setOption model name value

/-- What an error of the outstanding call is reported as. -/
def context (model : String) : Setup → String
  | creating => "failed to start engine for model " ++ model
  | configuring _ (name, _) _ => "failed to set " ++ name ++ " for model " ++ model

/-- What follows when the outstanding call has succeeded. -/
inductive Next where
  | more (s : Setup)
  | ready (e : EngineEntry)

/-- Goes on with the options that remain. -/
def configure (model : String) (accepted : List EngineOption) : List EngineOption → Next
  | [] => .ready ⟨model, accepted⟩
  | current :: remaining => .more (configuring accepted current remaining)

/-- The outstanding call has succeeded. -/
def next (settings : EngineSettings) (p : Profile) : Setup → Next
  | creating => configure p.model [] (settings.options p)
  | configuring accepted current remaining =>
    configure p.model (accepted ++ [current]) remaining

end Setup

end Sparring
