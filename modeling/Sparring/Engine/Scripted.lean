import Sparring.Engine.Schedule

/-!
# Engines that follow a script

A script says which calls fail or crash, and what is delivered during each search that is
submitted. Every call is logged before anything else happens to it, and so is what became of
every completion that the script has delivered.
-/

namespace Sparring

/-- The kinds of calls a fault can name. -/
inductive CallKind where
  | create | setOption | newGame | setPosition | go
deriving DecidableEq, Repr

/-- The kind of a call. -/
def EngineCall.kind : EngineCall → CallKind
  | create _ => .create
  | setOption .. => .setOption
  | newGame _ => .newGame
  | setPosition .. => .setPosition
  | go .. => .go

/-- A call that is to go wrong. -/
structure Fault where
  kind : CallKind
  /-- The model it is for, or any. -/
  model : Option String
  /-- The option it is for, or any. -/
  option : Option String
  /-- How often it still happens, or always. -/
  left : Option Nat
  message : String
  crashes : Bool

/-- A completion of a script. Its search is the one just submitted, or a fixed one, or none. -/
structure ScriptedCompletion where
  own : Bool
  search : Option SearchId
  outcome : Outcome

/-- An entry in the log. -/
inductive ScriptEntry where
  | called (c : EngineCall)
  | delivered (model : String) (r : Except HandoffError Unit)

/-- The engines of a script. -/
structure Scripted where
  faults : List Fault
  /-- What is delivered during the searches to come, search by search. -/
  answers : List (List ScriptedCompletion)
  log : List ScriptEntry
  /-- What the engines are about to do. -/
  coming : List EngineEvent
  /-- The model whose engine delivers. -/
  speaker : String
  /-- Whether an engine has ever been asked for. -/
  asked : Bool

namespace Scripted

/-- Engines that have not been called. -/
def new (faults : List Fault) (answers : List (List ScriptedCompletion)) : Scripted :=
  ⟨faults, answers, [], [], "", false⟩

/-- Whether a fault is one for the given call. -/
def Fault.matches (f : Fault) (c : EngineCall) : Bool :=
  let optionName := match c with
    | .setOption _ name _ => some name
    | _ => none
  f.kind = c.kind && f.left != some 0 && (f.model.isNone || f.model = some c.model) &&
    (f.option.isNone || f.option = optionName)

/-- The first fault for a call, and the faults with that one used. -/
def useFault (c : EngineCall) : List Fault → Option Fault × List Fault
  | [] => (none, [])
  | f :: rest =>
    if Fault.matches f c then (some f, { f with left := f.left.map (· - 1) } :: rest)
    else
      let (found, rest') := useFault c rest
      (found, f :: rest')

/-- What the engines do about a call without a fault: they deliver what the script has for a
search, and return. -/
def play (s : Scripted) (task : TaskId) (c : EngineCall) : Scripted :=
  match c, s.answers with
  | .go model search _, answer :: rest =>
    let deliveries := answer.map fun d =>
      EngineEvent.deliver ⟨if d.own then some search else d.search, d.outcome⟩
    { s with
      answers := rest
      speaker := model
      coming := s.coming ++ deliveries ++ [.returned task .ok] }
  | _, _ => { s with coming := s.coming ++ [.returned task .ok] }

/-- The engines take a call. -/
def begin (s : Scripted) (task : TaskId) (c : EngineCall) : Scripted :=
  let (fault, faults) := useFault c s.faults
  let s : Scripted := { s with
    faults, log := s.log ++ [.called c], asked := s.asked || c.kind = .create }
  match fault with
  | none => s.play task c
  | some f =>
    let result := if f.crashes then CallResult.crashed f.message else .failed [f.message]
    { s with coming := s.coming ++ [.returned task result] }

/-- The engines do what is first to come. -/
def step (s : Scripted) (_ : Unit) : Scripted × Option EngineEvent :=
  match s.coming with
  | [] => (s, none)
  | e :: rest => ({ s with coming := rest }, some e)

/-- What became of a completion is logged. -/
def told (s : Scripted) (r : Except HandoffError Unit) : Scripted :=
  { s with log := s.log ++ [.delivered s.speaker r] }

/-- The call of a task is given up, and will not return. What the script delivers comes all the
same. -/
def giveUp (s : Scripted) (task : TaskId) : Scripted :=
  { s with coming := s.coming.filter fun
      | .returned id _ => id ≠ task
      | .deliver _ => true }

instance : World Unit Scripted Unit where
  begin := begin
  step := step
  told := told
  giveUp := giveUp
  next? w s := (if s.coming.isEmpty then none else some (), w)
  wake? w _ := (none, w)

end Scripted

end Sparring
