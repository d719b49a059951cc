import Sparring.Difficulty.Stock
import Sparring.Gate
import Sparring.Registry
import Sparring.Service.Error

/-!
# The move service

A move request passes through the gate, resolves its difficulty, sees to it that the engine is
there, starts a new game, sets the position, arms the handoff, submits the search and waits for
its completion; the gate is its own for the whole way. Each request is a *task*, and the service
is a state machine: an event is a new request, a turn given to a task, an engine call that comes
back, a completion that an engine delivers, or a caller of a move that hangs up. An event that does
not apply changes nothing, so every list of events is a run, and the order in which turns are given
and calls come back is as free as it can be.

A task that waits for an engine call has that call *outstanding*; `Stage.call?` names it. When
an escalated violation ends the process, the service stops for good.
-/

namespace Sparring

/-- A task of the service, by the order of arrival. -/
abbrev TaskId := Nat

/-- Who can come to the gate of the service. -/
inductive Visitor where
  | task (id : TaskId)
  /-- Somebody from outside who takes the gate without asking for anything. -/
  | guest (number : Nat)
deriving DecidableEq, Repr

/-- What a task is to do behind the gate. -/
inductive Job where
  /-- Find a move for a position at a difficulty. -/
  | move (fen : String) (difficulty : Double)
  /-- Create the engines of all models of the table and start a game on each. -/
  | preload
  /-- Tell which models have engines. -/
  | listModels
  /-- See to it that a profile has its engine. -/
  | obtain (p : Profile)
  /-- See to it that a profile has its engine, and set a position on it. -/
  | place (p : Profile) (fen : String)
deriving DecidableEq

/-- What comes of a job. -/
inductive JobResult where
  | move (r : Except ServiceError Move)
  | preloaded (r : Except Causes Unit)
  | models (names : List String)
  | obtained (r : Except Causes EngineEntry)
  | placed (r : Except Causes Unit)
  /-- The job crashed and nobody but its caller was there to notice. -/
  | crashed (message : String)

namespace Job

/-- The result of a job that an engine error has ended. -/
def failed (causes : Causes) : Job → JobResult
  | move .. => .move (.error (.engine causes))
  | preload => .preloaded (.error causes)
  | listModels => .models []
  | obtain _ => .obtained (.error causes)
  | place .. => .placed (.error causes)

/-- The result of a job that crashed. A move is computed apart from its caller, who is told. -/
def crashed (message : String) : Job → JobResult
  | move .. =>
    .move (.error (.engine
      ["move computation failed: task N panicked with message " ++ quoteText message]))
  | _ => .crashed message

end Job

/-- How far a task has come. -/
inductive Stage where
  /-- It wants to pass through the gate. -/
  | waiting
  /-- The engine of `p` is being set up; the profiles of `rest` are to follow. -/
  | setup (p : Profile) (rest : List Profile) (s : Setup)
  /-- A game is being started on the engine of `p`. -/
  | startingGame (p : Profile) (rest : List Profile)
  /-- The position is being set on the engine of `p`. -/
  | positioning (p : Profile) (fen : String)
  /-- The search is being submitted to the engine of `p`. -/
  | submitting (p : Profile) (search : SearchId)
  /-- The engine of `p` is thinking. -/
  | thinking (p : Profile) (search : SearchId)
  | finished (r : JobResult)

/-- The engine call that is outstanding at a stage. -/
def Stage.call? : Stage → Option EngineCall
  | setup p _ s => some (s.call p.model)
  | startingGame p _ => some (.newGame p.model)
  | positioning p fen => some (.setPosition p.model fen)
  | submitting p search => some (.go p.model search p.limits)
  | waiting | thinking .. | finished _ => none

/-- A task. -/
structure Task where
  job : Job
  stage : Stage

/-- The service. The tasks stand in the order of their arrival. -/
structure Service where
  settings : EngineSettings
  table : Table
  policy : FailurePolicy
  gate : Gate Visitor
  handoff : Handoff
  registry : Registry
  tasks : List Task
  /-- A violation has ended the process. -/
  aborted : Bool

instance : Inhabited Service :=
  ⟨⟨.stock, .stock, .respond, .free, .new, .empty, [], false⟩⟩

/-- What an engine's final word on a search means for the request. -/
def Outcome.result (model : String) : Outcome → Except ServiceError Move
  | move m => .ok m
  | noLegalMove => .error .noLegalMove
  | engineExited => .error (.engine ["engine for " ++ model ++ " exited during search"])
  | unreadable reason =>
    .error (.engine ["engine for " ++ model ++ " reported an unreadable move: " ++ reason])

namespace Service

/-- A service that nobody has called. -/
def new (settings : EngineSettings) (table : Table) (policy : FailurePolicy) : Service :=
  ⟨settings, table, policy, .free, .new, .empty, [], false⟩

/-! ## Turns -/

/-- What a task does next: the stage it moves on to, what becomes of the service, and the error
it escalates on the way. -/
structure Turn where
  stage : Stage
  service : Service
  escalated : Option HandoffError

/-- A turn that escalates nothing. -/
def Turn.to (stage : Stage) (s : Service) : Turn := ⟨stage, s, none⟩

/-- The stage after the engine of `p` has been found ready. -/
def ready (job : Job) (p : Profile) (rest : List Profile) (entry : EngineEntry) : Stage :=
  match job with
  | .obtain _ => .finished (.obtained (.ok entry))
  | .place _ fen => .positioning p fen
  | _ => .startingGame p rest

/-- Looks for the engine of `p`, which is set up if there is none. -/
def seek (s : Service) (job : Job) (p : Profile) (rest : List Profile) : Stage :=
  match s.registry.find? p.model with
  | some entry => ready job p rest entry
  | none => .setup p rest .creating

/-- Looks for the engines of a row of profiles, which end a preload. -/
def seekAll (s : Service) (job : Job) : List Profile → Stage
  | [] => .finished (.preloaded (.ok ()))
  | p :: rest => s.seek job p rest

/-- The first stage behind the gate. -/
def firstStage (s : Service) (job : Job) : Stage :=
  match job with
  | .move _ difficulty => s.seek job (s.table.resolve difficulty) []
  | .preload => s.seekAll job s.table.distinctModels
  | .listModels => .finished (.models s.registry.models)
  | .obtain p => s.seek job p []
  | .place p _ => s.seek job p []

/-- Arms the handoff for a search by the engine of `p`. -/
def arm (s : Service) (p : Profile) : Turn :=
  match s.handoff.arm with
  | (.ok search, handoff) => .to (.submitting p search) { s with handoff }
  | (.error e, handoff) =>
    ⟨.finished (.move (.error (.handoff e))), { s with handoff }, some e⟩

/-- The turn of a task whose outstanding call has succeeded. -/
def succeed (s : Service) (job : Job) : Stage → Option Turn
  | .setup p rest setup =>
    match setup.next s.settings p with
    | .more setup' => some (.to (.setup p rest setup') s)
    | .ready entry =>
      some (.to (ready job p rest entry) { s with registry := s.registry.insert entry })
  | .startingGame p rest =>
    match job with
    | .move fen _ => some (.to (.positioning p fen) s)
    | _ => some (.to (s.seekAll job rest) s)
  | .positioning p _ =>
    match job with
    | .place .. => some (.to (.finished (.placed (.ok ()))) s)
    | _ => some (s.arm p)
  | .submitting p search => some (.to (.thinking p search) s)
  | .waiting | .thinking .. | .finished _ => none

/-- What an error of the outstanding call is reported under. -/
def context (job : Job) : Stage → Causes
  | .setup p _ setup => [setup.context p.model]
  | .startingGame p _ =>
    match job with
    | .preload => ["failed to start a game for " ++ p.model]
    | _ => []
  | _ => []

/-- The turn of a task whose outstanding call has failed. A search that could not be submitted
is disarmed, and its waiter leaves. -/
def fail (s : Service) (job : Job) (causes : Causes) (stage : Stage) : Option Turn :=
  stage.call?.map fun _ =>
    let result := .finished (job.failed (context job stage ++ causes))
    match stage with
    -- The waiter is told that its search was given up, and is gone before it looks.
    | .submitting _ search =>
      .to result { s with handoff := ((s.handoff.disarm search).leave search).2 }
    | _ => .to result s

/-- The turn of a task whose outstanding call has crashed. The waiter of a search goes down with
the task; the slot stays as it is. -/
def crash (s : Service) (job : Job) (message : String) (stage : Stage) : Option Turn :=
  stage.call?.map fun _ =>
    let result := .finished (job.crashed message)
    match stage with
    -- Nobody is left to disarm the slot.
    | .submitting _ search => .to result { s with handoff := (s.handoff.leave search).2 }
    | _ => .to result s

/-- The turn of a task whose outstanding call has come back. -/
def answer (s : Service) (job : Job) (stage : Stage) : CallResult → Option Turn
  | .ok => s.succeed job stage
  | .failed causes => s.fail job causes stage
  | .crashed message => s.crash job message stage

/-- The turn of a task that looks into its mailbox. -/
def look (s : Service) (p : Profile) (search : SearchId) : Option Turn :=
  match s.handoff.collect search with
  | (.reply (.ok outcome), handoff) =>
    some (.to (.finished (.move (outcome.result p.model))) { s with handoff })
  | (.reply (.error e), handoff) =>
    some ⟨.finished (.move (.error (.handoff e))), { s with handoff }, some e⟩
  | _ => none

/-! ## Events -/

/-- What can happen to the service. -/
inductive Event where
  /-- A task arrives. -/
  | start (job : Job)
  /-- A task is given a turn: it asks at the gate, or looks into its mailbox. -/
  | run (id : TaskId)
  /-- The outstanding call of a task comes back. -/
  | returned (id : TaskId) (r : CallResult)
  /-- An engine delivers a completion. -/
  | completed (c : Completion)
  /-- The caller of a move leaves, and drops the handle of its task. -/
  | hangUp (id : TaskId)

/-- What an event brings about outside the service. -/
inductive Effect where
  /-- A task calls an engine. -/
  | call (id : TaskId) (c : EngineCall)
  /-- An engine is told what became of its completion. -/
  | delivered (r : Except HandoffError Unit)

/-- Moves a task on. One that has finished leaves the gate, and an escalated violation may end
the process. -/
def move (id : TaskId) (turn : Turn) : Service × Option Effect :=
  let s := turn.service
  if turn.escalated.any s.policy.aborts then ({ s with aborted := true }, none)
  else
    let s := { s with tasks := s.tasks.modify id fun t => { t with stage := turn.stage } }
    -- The gate is left with the end of the task, whatever has come of it.
    match turn.stage with
    | .finished _ => ({ s with gate := s.gate.leave (.task id) }, none)
    | stage => (s, stage.call?.map (.call id))

/-- Moves a task on, if it has a turn. -/
def moveIfAny (s : Service) (id : TaskId) : Option Turn → Service × Option Effect
  | none => (s, none)
  | some turn => move id turn

/-- Gives a task a turn. -/
def run (s : Service) (id : TaskId) (t : Task) : Service × Option Effect :=
  match t.stage with
  | .waiting =>
    match s.gate.poll (.task id) with
    | (false, gate) => ({ s with gate }, none)
    | (true, gate) =>
      let s := { s with gate }
      move id (.to (s.firstStage t.job) s)
  | .thinking p search => s.moveIfAny id (s.look p search)
  | _ => (s, none)

/-- Takes the completion of a search. -/
def complete (s : Service) (c : Completion) : Service × Option Effect :=
  match s.handoff.fulfill c with
  | (.ok (), handoff) => ({ s with handoff }, some (.delivered (.ok ())))
  | (.error e, handoff) =>
    if s.policy.aborts e then ({ s with handoff, aborted := true }, none)
    else ({ s with handoff }, some (.delivered (.error e)))

/-- One event. A service that has been aborted does nothing any more. -/
def step (s : Service) (e : Event) : Service × Option Effect :=
  if s.aborted then (s, none)
  else
    match e with
    | .start job => ({ s with tasks := s.tasks ++ [⟨job, .waiting⟩] }, none)
    | .run id =>
      match s.tasks[id]? with
      | none => (s, none)
      | some t => s.run id t
    | .returned id r =>
      match s.tasks[id]? with
      | none => (s, none)
      | some t => s.moveIfAny id (s.answer t.job t.stage r)
    | .completed c => s.complete c
    -- A task whose handle is dropped is detached: the service has nothing to do with its caller.
    | .hangUp _ => (s, none)

/-- A row of events: the service after them and the calls made on the way. -/
def steps (s : Service) : List Event → Service × List EngineCall
  | [] => (s, [])
  | e :: rest =>
    let (s', effect) := s.step e
    let (s'', calls) := steps s' rest
    match effect with
    | some (.call _ c) => (s'', c :: calls)
    | _ => (s'', calls)

/-! ## Views -/

/-- The result of a task that has finished. -/
def result? (s : Service) (id : TaskId) : Option JobResult :=
  (s.tasks[id]?).bind fun t =>
    match t.stage with
    | .finished r => some r
    | _ => none

/-- Whether a turn would take a task further: it has not yet asked at the gate, or the gate has
been handed to it, or there is a reply in its mailbox. -/
def isRunnable (s : Service) (id : TaskId) (t : Task) : Bool :=
  match t.stage with
  | .waiting =>
    s.gate.holder? = some (.task id) || !(s.gate.queue.contains (.task id))
  | .thinking _ search =>
    match s.handoff.collect search with
    | (.reply _, _) => true
    | _ => false
  | _ => false

/-- The first of the tasks that a turn would take further. -/
def nextRunnable? (s : Service) : Option TaskId :=
  (s.tasks.zipIdx.find? fun (t, id) => s.isRunnable id t).map (·.2)

end Service

end Sparring
