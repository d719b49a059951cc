import Sparring.Engine.Backend
import Sparring.Uci.Instance

/-!
# Engine processes behind the service

A call to an engine is a short row of *actions* on its process: writing a line, noting the
search that is about to be submitted, waiting for an acknowledgement. The actions are steps of
their own, so the readers and the processes can do anything in between.

An engine that is created is the newest process for its model; calls for a model go to that one.
A process whose setup fails is killed.
-/

namespace Sparring.Uci

/-- A step of a call. -/
inductive Action where
  /-- A line is written to the engine. -/
  | write (line : String)
  /-- The search is noted as the current one. -/
  | record (search : SearchId)
  /-- The current search is taken back. -/
  | withdraw
  /-- Acknowledgements are taken until this one has come. -/
  | await (a : Ack)
deriving DecidableEq, Repr

/-- How far a call has come. -/
inductive Progress where
  /-- The process is being launched. -/
  | launching
  /-- Actions on a process that remain, and the error that the call will return, if any. -/
  | acting (process : Nat) (remaining : List Action) (failure : Option Causes)
deriving DecidableEq, Repr

/-- A call under way. -/
structure OpenCall where
  task : TaskId
  call : EngineCall
  progress : Progress
deriving DecidableEq, Repr

/-- All processes, dead ones too, in the order of their launch, and the calls under way. -/
structure Fleet where
  instances : List Instance
  calls : List OpenCall

namespace Fleet

/-- No process has been launched. -/
def empty : Fleet := ⟨[], []⟩

/-- What a call does on its process once that is there. A position with a line break is refused
before anything is written. -/
def actions : EngineCall → Except Causes (List Action)
  | .create _ => .ok [.write helloCommand, .await .uciOk]
  | .setOption _ name value => .ok [.write (optionCommand name value)]
  | .newGame _ => .ok [.write newGameCommand, .write readyCommand, .await .readyOk]
  | .setPosition _ fen =>
    if fen.toList.any isLineBreak then .error ["position contains a line break"]
    else .ok [.write (positionCommand fen)]
  -- The search is recorded before the process can possibly answer it.
  | .go _ search limits => .ok [.record search, .write (goCommand limits)]

/-- What is left to do after a write has failed. -/
def afterFailure : EngineCall → List Action
  | .go .. => [.withdraw]
  | _ => []

/-- The newest process of a model. -/
def newest? (f : Fleet) (model : String) : Option Nat :=
  (f.instances.zipIdx.reverse.find? (·.1.model = model)).map (·.2)

/-- The progress of a call at its start. -/
def opening (f : Fleet) (call : EngineCall) : Progress :=
  match call with
  | .create _ => .launching
  | _ =>
    let process := (f.newest? call.model).getD f.instances.length
    match actions call with
    | .ok remaining => .acting process remaining none
    | .error causes => .acting process [] (some causes)

/-- A task makes a call. -/
def begin (f : Fleet) (task : TaskId) (call : EngineCall) : Fleet :=
  { f with calls := f.calls ++ [⟨task, call, f.opening call⟩] }

/-- The call of a task. -/
def call? (f : Fleet) (task : TaskId) : Option OpenCall := f.calls.find? (·.task = task)

/-- The call of a task has come further. -/
def advance (f : Fleet) (task : TaskId) (progress : Progress) : Fleet :=
  { f with calls := f.calls.map fun c => if c.task = task then { c with progress } else c }

/-- The call of a task is over. -/
def close (f : Fleet) (task : TaskId) : Fleet :=
  { f with calls := f.calls.filter (·.task ≠ task) }

/-- Changes one process. -/
def modify (f : Fleet) (process : Nat) (g : Instance → Instance) : Fleet :=
  { f with instances := f.instances.modify process g }

/-- The error of a write to a process that has closed its input. -/
def brokenPipe (model : String) : Causes :=
  ["failed to write to engine for " ++ model, "Broken pipe (os error 32)"]

/-- The error of waiting for a process that has closed its output. -/
def noAnswer (model : String) (a : Ack) : Causes :=
  ["engine for " ++ model ++ " exited before answering " ++ a.name]

/-- Whether a failing call means that the process is given up. -/
def givesUp : EngineCall → Bool
  | .create _ => true
  | .setOption .. => true
  | _ => false

/-- The next action of a call on its process. -/
def act (f : Fleet) (c : OpenCall) (process : Nat) (i : Instance) (a : Action)
    (rest : List Action) (failure : Option Causes) : Fleet :=
  match a with
  | .write line =>
    if i.inputOpen then
      (f.modify process fun i => { i with written := i.written ++ [line ++ "\n"] }).advance c.task
        (.acting process rest failure)
    else
      -- Whatever the call was still to do is left out.
      f.advance c.task
        (.acting process (afterFailure c.call) (some (brokenPipe c.call.model)))
  | .record search =>
    (f.modify process fun i => { i with current := some search }).advance c.task
      (.acting process rest failure)
  | .withdraw =>
    (f.modify process fun i => { i with current := none }).advance c.task
      (.acting process rest failure)
  | .await a =>
    match i.acks with
    | got :: acks =>
      (f.modify process fun i => { i with acks }).advance c.task
        (.acting process (if got = a then rest else .await a :: rest) failure)
    | [] =>
      if i.reader = .ended then
        f.advance c.task (.acting process [] (some (noAnswer c.call.model a)))
      else f

/-- The return of a call whose actions are done. -/
def finish (f : Fleet) (c : OpenCall) (process : Nat) (failure : Option Causes) :
    Fleet × Option EngineEvent :=
  match failure with
  | none => (f.close c.task, some (.returned c.task .ok))
  | some causes =>
    let f := if givesUp c.call then f.modify process Instance.kill else f
    (f.close c.task, some (.returned c.task (.failed causes)))

/-- A call goes on. -/
def proceed (f : Fleet) (c : OpenCall) : Fleet × Option EngineEvent :=
  match c.progress with
  | .launching => (f, none)
  | .acting process [] failure => f.finish c process failure
  | .acting process (a :: rest) failure =>
    match f.instances[process]? with
    | none => f.finish c process (some (brokenPipe c.call.model))
    | some i => (f.act c process i a rest failure, none)

/-- The launch of a process is over: it runs, or there is an error. -/
def launched (f : Fleet) (c : OpenCall) (failure : Option Causes) : Fleet × Option EngineEvent :=
  match c.progress, failure with
  | .launching, none =>
    let process := f.instances.length
    let f := { f with instances := f.instances ++ [Instance.new c.call.model] }
    match actions c.call with
    | .ok remaining => (f.advance c.task (.acting process remaining none), none)
    | .error causes => (f.advance c.task (.acting process [] (some causes)), none)
  | .launching, some causes => (f.close c.task, some (.returned c.task (.failed causes)))
  | _, _ => (f, none)

/-- What can happen to the processes and to the calls under way. -/
inductive Event where
  /-- The launch that a task waits for succeeds or fails. -/
  | launched (task : TaskId) (failure : Option Causes)
  /-- The call of a task goes on. -/
  | proceed (task : TaskId)
  /-- The reader of a process takes a step. -/
  | read (process : Nat)
  /-- A process prints. -/
  | print (process : Nat) (bytes : List UInt8)
  /-- A process closes its output. -/
  | closeOutput (process : Nat)
  /-- A process closes its input. -/
  | closeInput (process : Nat)

/-- One event. -/
def step (f : Fleet) : Event → Fleet × Option EngineEvent
  | .launched task failure =>
    match f.call? task with
    | none => (f, none)
    | some c => f.launched c failure
  | .proceed task =>
    match f.call? task with
    | none => (f, none)
    | some c => f.proceed c
  | .read process =>
    match f.instances[process]? with
    | none => (f, none)
    | some i =>
      let (i', completion) := i.read
      (f.modify process fun _ => i', completion.map .deliver)
  | .print process bytes =>
    (f.modify process fun i =>
      if i.outputOpen then { i with output := i.output ++ bytes } else i, none)
  | .closeOutput process => (f.modify process fun i => { i with outputOpen := false }, none)
  | .closeInput process => (f.modify process fun i => { i with inputOpen := false }, none)

/-- A task gives up its call. The engine of a call that gives up its process
when it fails goes with it. -/
def giveUp (f : Fleet) (task : TaskId) : Fleet :=
  match f.call? task with
  | none => f
  | some c =>
    match c.progress with
    | .launching => f.close task
    | .acting process _ _ => (f.finish c process (some [])).1

instance : Backend Fleet Event where
  begin := begin
  step := step
  told f _ := f
  giveUp := giveUp

/-- Whether the call of a task can go on without waiting. -/
def canProceed (f : Fleet) (c : OpenCall) : Bool :=
  match c.progress with
  | .launching => false
  | .acting process (.await _ :: _) _ =>
    match f.instances[process]? with
    | some i => !i.acks.isEmpty || i.reader = .ended
    | none => true
  | .acting .. => true

end Fleet

end Sparring.Uci
