import Sparring.Engine.Backend

/-!
# Callers

Whoever asks the service for something is given a *future*, and nothing happens before it is polled
for the first time. What happens then depends on who does the work (`Job.owner`). A move is
computed by a task of the runtime, and the future has a *handle* of that task only, by which it
waits for the end. All else is done by the future itself as it is polled, and a future that is
dropped gives its work up where it stands: its waiter leaves the handoff, it leaves the gate or the
queue before it, and the engine call that is under way goes with it (`System.giveUp`).

What becomes of a task whose handle is dropped is up to the *runtime*: it cancels the task, or it
detaches it and lets it go on (`Runtime.Detaches`).
-/

namespace Sparring

/-- Who does the work of a job. -/
inductive Owner where
  /-- The future that the caller has. -/
  | future
  /-- A task of the runtime, of which the caller's future has a handle. -/
  | task
deriving DecidableEq, Repr

/-- Who does a job. Only moves are given to tasks. -/
def Job.owner : Job → Owner
  | move .. => .task
  | preload | listModels | obtain _ | place .. => .future

/-! ## Dropping -/

/-- A runtime, by what it does about a task whose handle is dropped. -/
structure Runtime where
  /-- Whether it cancels the task. -/
  cancels : TaskId → Bool

namespace Runtime

/-- Every task whose handle is dropped is detached: it goes on as before. -/
def Detaches (rt : Runtime) : Prop := ∀ id, rt.cancels id = false

/-- The runtime that detaches tasks. -/
def detaching : Runtime := ⟨fun _ => false⟩

/-- A runtime that cancels tasks instead. -/
def cancelling : Runtime := ⟨fun _ => true⟩

end Runtime

/-- The handoff after the work of a task has been given up at a stage. A waiter leaves, and the
slot stays as it is. -/
def Stage.leaveHandoff (stage : Stage) (h : Handoff) : Handoff :=
  match stage with
  | submitting _ search | thinking _ search => (h.leave search).2
  | _ => h

/-- The service after the work of a task has been given up where it stands. The task counts as
finished, with a result that nobody will ask for. -/
def Service.giveUp (s : Service) (id : TaskId) (t : Task) : Service :=
  (move id (.to (.finished (t.job.failed []))
    { s with handoff := t.stage.leaveHandoff s.handoff })).1

namespace System

variable {σ ε : Type} [Backend σ ε]

/-- The system after the work of a task has been given up, unless it is over. -/
def giveUp (s : System σ) (id : TaskId) : System σ :=
  if s.service.aborted then s
  else
    match s.service.tasks[id]? with
    | none | some ⟨_, .finished _⟩ => s
    | some t => ⟨s.service.giveUp id t, Backend.giveUp s.engines id⟩

/-- The system after the handle of a task has been dropped. -/
def dropHandle (rt : Runtime) (s : System σ) (id : TaskId) : System σ :=
  if rt.cancels id then s.giveUp id else s.step (.hangUp id : Event ε)

end System

/-! ## Futures -/

/-- How far a future has come. -/
inductive FutureState where
  /-- It has not been polled. -/
  | fresh
  /-- It has been polled, and is not done. The work is known by its number in the service. -/
  | pending (id : TaskId)
  | ready (r : JobResult)
  | dropped

/-- What the caller of a job has. -/
structure Future where
  job : Job
  state : FutureState

namespace Future

/-- The number of the work as a future is polled; the work of one that has not been polled before
comes next in the service. -/
def polled? (f : Future) (next : TaskId) : Option TaskId :=
  match f.state with
  | .fresh => some next
  | .pending id => some id
  | .ready _ | .dropped => none

/-- What happens to the system as a future is polled. A future that does its work itself goes on
with it. -/
def turns {ε : Type} (f : Future) (next : TaskId) : List (System.Event ε) :=
  match f.state, f.job.owner with
  | .fresh, .task => [.start f.job]
  | .fresh, .future => [.start f.job, .run next]
  | .pending id, .future => [.run id]
  | _, _ => []

end Future

/-- A system with its callers, by the futures they were given. -/
structure Callers (σ : Type) where
  system : System σ
  futures : List Future

namespace Callers

variable {σ ε : Type} [Backend σ ε]

/-- What can happen to a system and its callers. -/
inductive Event (ε : Type) where
  /-- Somebody asks for something, and is given a future. -/
  | call (job : Job)
  | poll (k : Nat)
  | drop (k : Nat)
  /-- The runtime gives a task of its own a turn. -/
  | run (id : TaskId)
  /-- The engines take a step. -/
  | engine (e : ε)

/-- A system that nobody has called. -/
def new (s : System σ) : Callers σ := ⟨s, []⟩

/-- A future has come further. -/
def advance (c : Callers σ) (k : Nat) (state : FutureState) : Callers σ :=
  { c with futures := c.futures.modify k fun f => { f with state } }

/-- A future is polled. It is ready if its work is over. -/
def poll (c : Callers σ) (k : Nat) (f : Future) : Callers σ :=
  let next := c.system.service.tasks.length
  match f.polled? next with
  | none => c
  | some id =>
    let system := c.system.steps (f.turns next : List (System.Event ε))
    let state := match system.service.result? id with
      | some r => .ready r
      | none => .pending id
    { c with system }.advance k state

/-- A future is dropped, and with it the handle or the work that it has. -/
def drop (rt : Runtime) (c : Callers σ) (k : Nat) (f : Future) : Callers σ :=
  let system := match f.state, f.job.owner with
    | .pending id, .task => c.system.dropHandle rt id
    | .pending id, .future => c.system.giveUp id
    | _, _ => c.system
  { c with system }.advance k .dropped

/-- One event. One that does not apply changes nothing, nor does any once the process has ended. -/
def step (rt : Runtime) (c : Callers σ) (e : Event ε) : Callers σ :=
  if c.system.service.aborted then c
  else
    match e with
    | .call job => { c with futures := c.futures ++ [⟨job, .fresh⟩] }
    | .poll k =>
      match c.futures[k]? with
      | none => c
      | some f => c.poll k f
    | .drop k =>
      match c.futures[k]? with
      | none => c
      | some f => c.drop rt k f
    | .run id =>
      if (c.system.service.tasks[id]?).any (·.job.owner = .task) then
        { c with system := c.system.step (.run id : System.Event ε) }
      else c
    | .engine e => { c with system := c.system.step (.engine e) }

end Callers

end Sparring
