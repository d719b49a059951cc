import Sparring.Service

/-!
# Engines behind the service

Engines of one kind are a state machine of their own. The service hands them its calls; what
they do comes back as completions and as calls that return. A *system* is the service together
with its engines, and again every list of events is a run: turns of tasks and steps of engines
in any order.
-/

namespace Sparring

/-- What engines do that the service can see. -/
inductive EngineEvent where
  | deliver (c : Completion)
  | returned (id : TaskId) (r : CallResult)

/-- Engines with state `σ` that take steps `ε`. -/
class Backend (σ : Type) (ε : outParam Type) where
  /-- A task makes a call. -/
  begin : σ → TaskId → EngineCall → σ
  /-- A step, and what the service sees of it. -/
  step : σ → ε → σ × Option EngineEvent
  /-- The engines learn what became of a completion. -/
  told : σ → Except HandoffError Unit → σ
  /-- A task gives up its call, wherever it stands. -/
  giveUp : σ → TaskId → σ

/-- The service with its engines. -/
structure System (σ : Type) where
  service : Service
  engines : σ

namespace System

variable {σ ε : Type} [Backend σ ε]

/-- What can happen to a system. -/
inductive Event (ε : Type) where
  | start (job : Job)
  | run (id : TaskId)
  | hangUp (id : TaskId)
  /-- The engines take a step. -/
  | engine (e : ε)

/-- An event of the service, whose effect the engines take up. -/
def serve (s : System σ) (e : Service.Event) : System σ :=
  match s.service.step e with
  | (service, none) => { s with service }
  | (service, some (.call id c)) => ⟨service, Backend.begin s.engines id c⟩
  | (service, some (.delivered r)) => ⟨service, Backend.told s.engines r⟩

/-- One event. -/
def step (s : System σ) : Event ε → System σ
  | .start job => s.serve (.start job)
  | .run id => s.serve (.run id)
  | .hangUp id => s.serve (.hangUp id)
  | .engine e =>
    if s.service.aborted then s
    else
      match Backend.step s.engines e with
      | (engines, none) => { s with engines }
      | (engines, some (.deliver c)) => { s with engines }.serve (.completed c)
      | (engines, some (.returned id r)) => { s with engines }.serve (.returned id r)

/-- A row of events. -/
def steps (s : System σ) (events : List (Event ε)) : System σ := events.foldl step s

end System

end Sparring
