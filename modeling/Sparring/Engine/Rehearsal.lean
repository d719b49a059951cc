import Sparring.Engine.Schedule

/-!
# Engines for rehearsal

An engine for rehearsal accepts every call and answers every search with the same reply, some
time after it was submitted. It keeps a record of all it was asked to do.
-/

namespace Sparring

/-- An entry in the record. -/
inductive RehearsalEntry where
  | called (c : EngineCall)
  | completed (model : String) (search : SearchId)

/-- A search that is under way. -/
structure RehearsalSearch where
  model : String
  search : SearchId

/-- The engines for rehearsal. -/
structure Rehearsal where
  /-- The reply to every search; one that is no move means that there is none. -/
  reply : String
  /-- Whether no engine can be created. -/
  failCreate : Bool
  created : Nat
  record : List RehearsalEntry
  /-- Calls that are about to return. -/
  returning : List (TaskId × CallResult)
  /-- Searches under way, in order. -/
  searches : List RehearsalSearch

namespace Rehearsal

/-- Engines that have not been called. -/
def new (reply : String) (failCreate : Bool) : Rehearsal :=
  ⟨reply, failCreate, 0, [], [], []⟩

/-- The outcome of every search. -/
def outcome (r : Rehearsal) : Outcome :=
  match Move.read r.reply with
  | .ok m => .move m
  | .error _ => .noLegalMove

/-- A step of the engines. -/
inductive Event where
  /-- A call returns. -/
  | endCall
  /-- The first of the searches under way is over. -/
  | endSearch

/-- The engines take a call. -/
def begin (r : Rehearsal) (task : TaskId) (c : EngineCall) : Rehearsal :=
  let recorded := { r with
    record := r.record ++ [.called c], returning := r.returning ++ [(task, .ok)] }
  match c with
  | .create _ =>
    if r.failCreate then
      { r with
        returning := r.returning ++ [(task, .failed ["mock engine refused to start"])] }
    else { recorded with created := r.created + 1 }
  | .go model search _ => { recorded with searches := r.searches ++ [⟨model, search⟩] }
  | _ => recorded

/-- The engines take a step. -/
def step (r : Rehearsal) : Event → Rehearsal × Option EngineEvent
  | .endCall =>
    match r.returning with
    | [] => (r, none)
    | (task, result) :: rest => ({ r with returning := rest }, some (.returned task result))
  | .endSearch =>
    match r.searches with
    | [] => (r, none)
    | ⟨model, search⟩ :: rest =>
      ({ r with searches := rest, record := r.record ++ [.completed model search] },
        some (.deliver ⟨some search, r.outcome⟩))

instance : World Unit Rehearsal Event where
  begin := begin
  step := step
  told r _ := r
  giveUp r task := { r with returning := r.returning.filter (·.1 ≠ task) }
  next? w r := (if r.returning.isEmpty then none else some .endCall, w)
  wake? w r := (if r.searches.isEmpty then none else some .endSearch, w)

end Rehearsal

end Sparring
