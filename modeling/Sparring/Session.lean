import Sparring.Callers
import Sparring.Engine.Rehearsal
import Sparring.Engine.Scripted
import Sparring.Http
import Sparring.Uci.Puppet

/-!
# Sessions

A session is a service in a world of its own together with somebody who uses it step by step:
asks for moves, waits for them or leaves them in the background, sends HTTP requests, and reaches
into the handoff and the gate from outside. After each step it tells what came of it and how the
service stands.
-/

namespace Sparring

/-- What the engines of a session have been asked to do so far. -/
inductive Record where
  | rehearsal (created : Nat) (entries : List RehearsalEntry)
  | script (entries : List ScriptEntry)
  | commands (lines : List String)

/-- A world whose engines keep a record. -/
class Recorded (ω σ : Type) where
  record : ω → σ → Record
  /-- Whether the engines have been told where completions go. -/
  hasSink : σ → Bool

instance : Recorded Unit Rehearsal where
  record _ r := .rehearsal r.created r.record
  hasSink _ := false

instance : Recorded Unit Scripted where
  record _ s := .script s.log
  hasSink s := s.asked

instance : Recorded Uci.PuppetWorld Uci.Fleet where
  record w f := .commands (w.readAll f).log
  hasSink _ := false

/-- A session. -/
structure Session (ω σ : Type) where
  world : ω
  system : System σ
  /-- The moves in the background, by the names they were started under. -/
  callers : List (String × TaskId)
  /-- The number of the guest who has the gate, or waits to be let go. -/
  guest : Option Nat
  guests : Nat

namespace Session

/-- A step of a session. -/
inductive Step where
  | preload
  | move (fen : String) (difficulty : Double)
  /-- Several moves asked for at the same time. -/
  | batch (fen : String) (difficulties : List Double)
  | http (r : HttpRequest)
  | resolve (difficulty : Double)
  | models
  | record
  /-- A move is asked for in the background. -/
  | start (name : String) (fen : String) (difficulty : Double)
  | poll (name : String)
  /-- The caller of a move in the background leaves. -/
  | abandon (name : String)
  /-- An engine delivers a completion. -/
  | deliver (c : Completion)
  /-- A completion is put straight into the slot. -/
  | fulfill (c : Completion)
  | arm
  | disarm (search : SearchId)
  /-- A guest tries the gate, and an earlier guest leaves. -/
  | hold
  | heldModels
  | release
  | obtain (p : Profile)
  | place (p : Profile) (fen : String)
  | contains (model : String)

/-- What comes of a step. -/
inductive Report where
  | done
  | started
  | unknown
  | pending
  | noSink
  | result (r : JobResult)
  | results (rs : List JobResult)
  | response (bodiless : Bool) (r : HttpResponse)
  | model (name : String)
  | record (r : Record)
  | was (b : Bool)
  | armed (search : SearchId)
  | failed (e : HandoffError)
  | models (names : Option (List String))
  /-- The awaited result will never come. -/
  | stuck

/-- A report, and how the service stands after it. -/
structure Entry where
  report : Report
  held : Bool
  armed : Option SearchId
  loaded : List String

/-- How a session ended. -/
inductive Ending where
  | complete
  | aborted
deriving DecidableEq

variable {ω σ ε : Type} [World ω σ ε] [Recorded ω σ]

/-- A session that nothing has happened in. -/
def new (world : ω) (engines : σ) (service : Service) : Session ω σ :=
  ⟨world, ⟨service, engines⟩, [], none, 0⟩

/-- The service of a session. -/
def service (s : Session ω σ) : Service := s.system.service

/-- The session with another service. -/
def withService (s : Session ω σ) (service : Service) : Session ω σ :=
  { s with system := { s.system with service } }

/-- How many steps a session goes on without coming to rest. -/
def patience : Nat := 1000000

/-- Lets everything run that can. -/
def settle (s : Session ω σ) : Session ω σ :=
  let (world, system) := System.settle patience s.world s.system
  { s with world, system }

/-- A new task, by its number. -/
def spawn (s : Session ω σ) (job : Job) : TaskId × Session ω σ :=
  (s.service.tasks.length, { s with system := s.system.step (.start job : System.Event ε) })

/-- New tasks, by their numbers. -/
def spawnAll (s : Session ω σ) (jobs : List Job) : List TaskId × Session ω σ :=
  jobs.foldl (fun (ids, s) job => let (id, s) := spawn (ε := ε) s job; (ids ++ [id], s)) ([], s)

/-- Waits for the end of a task. -/
def await (s : Session ω σ) (id : TaskId) : Option JobResult × Session ω σ :=
  let (world, system) := System.await patience id patience s.world s.system
  (system.service.result? id, { s with world, system })

/-- Waits for the end of several tasks. -/
def awaitAll (s : Session ω σ) : List TaskId → Option (List JobResult) × Session ω σ
  | [] => (some [], s)
  | id :: rest =>
    let (r, s) := s.await id
    let (rs, s) := awaitAll s rest
    (r.bind fun r => rs.map (r :: ·), s)

/-- Does a job and waits for its end. -/
def perform (s : Session ω σ) (job : Job) : Option JobResult × Session ω σ :=
  let (id, s) := spawn (ε := ε) s job
  s.await id

/-- A result that has been waited for, as a report. -/
def reportOf : Option JobResult → Report
  | some r => .result r
  | none => .stuck

/-- Answers an HTTP request. -/
def answer (s : Session ω σ) (r : HttpRequest) : Report × Session ω σ :=
  let bodiless : Bool := r.method = "HEAD"
  match Http.route r with
  | .reply response => (.response bodiless response, s)
  | .move fen difficulty =>
    match s.perform (.move fen difficulty) with
    | (some (.move result), s) => (.response bodiless (Http.respond result), s)
    | (_, s) => (.stuck, s)

/-- Looks after a move in the background. -/
def lookAfter (s : Session ω σ) (name : String) : Report × Session ω σ :=
  let s := s.settle
  match s.callers.lookup name with
  | none => (.unknown, s)
  | some id =>
    match s.service.result? id with
    | none => (.pending, s)
    | some r => (.result r, { s with callers := s.callers.filter (·.1 ≠ name) })

/-- The caller of a move in the background leaves, if it still waits. -/
def abandon (s : Session ω σ) (name : String) : Report × Session ω σ :=
  match s.callers.lookup name with
  | none => (.was false, s)
  | some id =>
    let waits := (s.service.result? id).isNone
    (.was waits,
      { s with
        callers := s.callers.filter (·.1 ≠ name)
        system := s.system.dropHandle .detaching id })

/-- An engine delivers a completion. -/
def deliver (s : Session ω σ) (c : Completion) : Report × Session ω σ :=
  if Recorded.hasSink ω s.system.engines then
    match s.service.step (.completed c) with
    | (service, some (.delivered (.error e))) => (.failed e, (s.withService service).settle)
    | (service, _) => (.done, (s.withService service).settle)
  else (.noSink, s)

/-- A completion is put straight into the slot. -/
def fulfill (s : Session ω σ) (c : Completion) : Report × Session ω σ :=
  match s.service.handoff.fulfill c with
  | (.ok (), handoff) => (.done, (s.withService { s.service with handoff }).settle)
  | (.error e, handoff) => (.failed e, (s.withService { s.service with handoff }).settle)

/-- The slot is armed from outside, by somebody who does not wait for the outcome. -/
def arm (s : Session ω σ) : Report × Session ω σ :=
  match s.service.handoff.arm with
  | (.ok search, handoff) =>
    (.armed search, s.withService { s.service with handoff := (handoff.leave search).2 })
  | (.error e, handoff) => (.failed e, s.withService { s.service with handoff })

/-- The guest leaves the gate. -/
def letGo (s : Session ω σ) : Session ω σ :=
  match s.guest with
  | none => s
  | some n =>
    { s.withService { s.service with gate := s.service.gate.leave (.guest n) } with guest := none }

/-- A new guest tries the gate; an earlier one leaves after that. -/
def hold (s : Session ω σ) : Report × Session ω σ :=
  match s.service.gate.tryEnter (.guest s.guests) with
  | (true, gate) =>
    let s := (s.withService { s.service with gate }).letGo
    (.was true, { s with guest := some s.guests, guests := s.guests + 1 })
  | (false, _) => (.was false, s.letGo)

/-- Performs a step. -/
def step (s : Session ω σ) : Step → Report × Session ω σ
  | .preload => let (r, s) := s.perform .preload; (reportOf r, s)
  | .move fen d => let (r, s) := s.perform (.move fen d); (reportOf r, s)
  | .batch fen ds =>
    let (ids, s) := s.spawnAll (ds.map (.move fen ·))
    match s.awaitAll ids with
    | (some rs, s) => (.results rs, s)
    | (none, s) => (.stuck, s)
  | .http r => s.answer r
  | .resolve d => (.model (s.service.table.resolve d).model, s)
  | .models => let (r, s) := s.perform .listModels; (reportOf r, s)
  | .record => (.record (Recorded.record s.world s.system.engines), s)
  | .start name fen d =>
    let (id, s) := s.spawn (.move fen d)
    (.started, { s with callers := (name, id) :: s.callers.filter (·.1 ≠ name) }.settle)
  | .poll name => s.lookAfter name
  | .abandon name => s.abandon name
  | .deliver c => s.deliver c
  | .fulfill c => s.fulfill c
  | .arm => s.arm
  | .disarm search =>
    (.done,
      (s.withService { s.service with handoff := s.service.handoff.disarm search }).settle)
  | .hold => s.hold
  | .heldModels => (.models (s.guest.map fun _ => s.service.registry.models), s)
  | .release => (.done, s.letGo.settle)
  | .obtain p => let (r, s) := s.perform (.obtain p); (reportOf r, s)
  | .place p fen => let (r, s) := s.perform (.place p fen); (reportOf r, s)
  | .contains model => (.was (s.service.registry.contains model), s)

/-- A report with how the service stands. -/
def entry (report : Report) (s : Session ω σ) : Entry :=
  ⟨report, s.service.gate.isHeld, s.service.handoff.armed, s.service.registry.models⟩

/-- Performs steps until they are done or the process is aborted. -/
def transcript (s : Session ω σ) : List Step → List Entry × Ending
  | [] => ([], .complete)
  | step :: rest =>
    let (report, s') := s.step step
    if s'.service.aborted then ([], .aborted)
    else
      let (entries, ending) := transcript s' rest
      (entry report s' :: entries, ending)

end Session

end Sparring
