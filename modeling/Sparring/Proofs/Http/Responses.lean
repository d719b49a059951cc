import Sparring.Proofs.Engine.Calls
import Sparring.Proofs.Http.Queries
import Sparring.Proofs.Service.Serial
import Sparring.Session

/-!
# What a request is answered with

A request that is rejected is answered at once, and the service and its engines see nothing of it.
Any other is a task of the service (`exchange`, `arrival`), and its response is what comes of that
task (`Exchange.response?`). `response_account` says which status it has: the status of an invalid
request exactly if the query is rejected, that of success or of a position without moves exactly if
the first completion since the task has armed its search was its own and said so, and that of a
failure in all other cases. It holds of every run of every system, whatever its engines do.

An exchange of a session is one of these (`answer_eq`): the session only decides in which order
things happen.
-/

namespace Sparring

namespace Http

/-- What is owed for a request: a response that is there at once, or what comes of a task. -/
inductive Exchange where
  | answered (r : HttpResponse)
  | computing (id : TaskId)

/-- The response that is owed, as soon as there is one. -/
def Exchange.response? (s : Service) : Exchange → Option HttpResponse
  | answered r => some r
  | computing id =>
    match s.result? id with
    | some (.move result) => some (respond result)
    | _ => none

/-- Whether the search of a request has been submitted, and the first completion since its arming
carried the number of this search and an outcome. -/
def Exchange.EndedBy (s : Service) (es : List Service.Event) (o : Outcome) : Exchange → Prop
  | answered _ => False
  | computing id => ∃ p n, s.DecidedBy es id p n ⟨some n, o⟩

/-- The query of a request. -/
def query (r : HttpRequest) : List Char := (splitTarget r.target).2

theorem route_eq_routeQuery {r : HttpRequest} (hget : r.method = "GET")
    (hroot : (splitTarget r.target).1 = ['/']) : route r = routeQuery (query r) := by
  simp [route, hget, hroot, query]

end Http

namespace System

/-- What is owed for a request that comes to a system. -/
def exchange {σ : Type} (s : System σ) (r : HttpRequest) : Http.Exchange :=
  match Http.route r with
  | .reply response => .answered response
  | .move .. => .computing s.service.tasks.length

/-- What a request does to a system: a task arrives if a move is wanted. -/
def arrival {ε : Type} (r : HttpRequest) : List (Event ε) :=
  match Http.route r with
  | .reply _ => []
  | .move fen difficulty => [.start (.move fen difficulty)]

end System

/-! ## The account of a request -/

namespace Http

/-- How a response stands to the query of its request and to what has become of its exchange. -/
structure Exchange.Fits (x : Exchange) (query : List Char) (s : Service) (es : List Service.Event)
    (response : HttpResponse) : Prop where
  invalid : response.status = 400 ↔ Rejected query
  found : response.status = 200 ↔ ∃ m, x.EndedBy s es (.move m)
  noLegalMove : response.status = 422 ↔ x.EndedBy s es .noLegalMove
  failed : response.status = 500 ↔
    ¬Rejected query ∧ (∀ m, ¬x.EndedBy s es (.move m)) ∧ ¬x.EndedBy s es .noLegalMove
  /-- A success tells the move and nothing else. -/
  body : ∀ m, x.EndedBy s es (.move m) →
    response.body = .json (.obj [("result", .obj (
      [("from", .str m.source.text), ("to", .str m.target.text)] ++
        (m.promotion.map fun p => ("promotion", .str (String.singleton p.letter))).toList))])

section Fits

variable {query : List Char} {s : Service} {es : List Service.Event}

theorem fits_answered {response : HttpResponse} (h : response.status = 400)
    (hrejected : Rejected query) : (Exchange.answered response).Fits query s es response := by
  refine ⟨⟨fun _ => hrejected, fun _ => h⟩, ?_, ?_, ?_, fun m hm => hm.elim⟩
  · rw [h]
    exact ⟨fun h => (by cases h), fun ⟨_, hm⟩ => hm.elim⟩
  · rw [h]
    exact ⟨fun h => (by cases h), False.elim⟩
  · rw [h]
    exact ⟨fun h => (by cases h), fun hno => absurd hrejected hno.1⟩

/-- The result of a task that is a request makes a response that fits. -/
theorem fits_respond {id : TaskId} (hasked : ¬Rejected query) {r : Except ServiceError Move}
    (hmove : ∀ m, r = .ok m ↔ (Exchange.computing id).EndedBy s es (.move m))
    (hnone : r = .error .noLegalMove ↔ (Exchange.computing id).EndedBy s es .noLegalMove)
    (hvalid : ∀ e, r ≠ .error (.invalidRequest e)) :
    (Exchange.computing id).Fits query s es (respond r) := by
  cases r with
  | ok m =>
    have hm := (hmove m).1 rfl
    refine ⟨⟨fun h => (by cases h), fun h => absurd h hasked⟩, ⟨fun _ => ⟨m, hm⟩, fun _ => rfl⟩,
      ?_, ?_, fun m' hm' => ?_⟩
    · rw [← hnone]
      exact ⟨fun h => (by cases h), fun h => (by cases h)⟩
    · exact ⟨fun h => (by cases h), fun h => absurd hm (h.2.1 m)⟩
    · cases (hmove m').2 hm'
      rfl
  | error e =>
    have hno : ∀ m, ¬(Exchange.computing id).EndedBy s es (.move m) := fun m hm => by
      cases (hmove m).2 hm
    cases e with
    | invalidRequest e => exact absurd rfl (hvalid e)
    | noLegalMove =>
      have hend := hnone.1 rfl
      exact ⟨⟨fun h => (by cases h), fun h => absurd h hasked⟩,
        ⟨fun h => (by cases h), fun ⟨m, hm⟩ => absurd hm (hno m)⟩, ⟨fun _ => hend, fun _ => rfl⟩,
        ⟨fun h => (by cases h), fun h => absurd hend h.2.2⟩, fun m hm => absurd hm (hno m)⟩
    | engine | handoff =>
      have hend : ¬(Exchange.computing id).EndedBy s es .noLegalMove := fun h => by
        cases hnone.2 h
      exact ⟨⟨fun h => (by cases h), fun h => absurd h hasked⟩,
        ⟨fun h => (by cases h), fun ⟨m, hm⟩ => absurd hm (hno m)⟩,
        ⟨fun h => (by cases h), fun h => absurd h hend⟩,
        ⟨fun _ => ⟨hasked, hno, hend⟩, fun _ => rfl⟩, fun m hm => absurd hm (hno m)⟩

end Fits

end Http

namespace System

open Http

variable {σ ε : Type} [Backend σ ε]

/-- What a run says about a request that comes in the middle of it. -/
structure ResponseAccount (s : System σ) (before later : List (Event ε)) (r : HttpRequest) :
    Prop where
  /-- A request with a rejected query is answered at once, and nothing else happens. -/
  rejected : Rejected (query r) →
    arrival r = ([] : List (Event ε)) ∧ ∃ response, (s.after before).exchange r = .answered response
  /-- Any other asks for a move, and what it asks for is what its task is to do. -/
  accepted : ¬Rejected (query r) → ∃ fen difficulty, Asks (query r) fen difficulty ∧
    arrival r = ([.start (.move fen difficulty)] : List (Event ε)) ∧
    (s.after before).exchange r = .computing (s.after before).service.tasks.length
  /-- The response fits. -/
  fits : ∀ response,
    ((s.after before).exchange r).response? (s.after (before ++ (arrival r ++ later))).service =
      some response →
    ((s.after before).exchange r).Fits (query r) s.service
      (s.relayed (before ++ (arrival r ++ later))) response
  /-- A task that has finished has its response. -/
  finished : ∀ id result, (s.after before).exchange r = .computing id →
    (s.after (before ++ (arrival r ++ later))).service.result? id = some result →
    ∃ response, (Exchange.computing id).response?
      (s.after (before ++ (arrival r ++ later))).service = some response
  /-- It has finished when it is given a turn after its submission has succeeded and a completion
  has come. -/
  told : ∀ id p n since, (s.after before).exchange r = .computing id →
    s.service.HasArmed (s.relayed (before ++ (arrival r ++ later))) id p n since →
    Service.Told id since →
    ∃ response, (Exchange.computing id).response?
      (s.after (before ++ (arrival r ++ later))).service = some response
  /-- Whatever an engine is called for on behalf of the request belongs to the position and to the
  profile that the difficulty resolves to. -/
  calls : ∀ id c, (s.after before).exchange r = .computing id →
    .call id c ∈ s.effects (before ++ (arrival r ++ later)) →
    ∃ fen difficulty, Asks (query r) fen difficulty ∧
      (c ∈ Service.setupCalls s.service.settings (s.service.table.resolve difficulty) ∨
        ∃ n, c ∈ Service.searchCalls (s.service.table.resolve difficulty) fen n)
  /-- The position that it receives is the one of the query, character for character. -/
  position : ∀ id model text, (s.after before).exchange r = .computing id →
    .call id (.setPosition model text) ∈ s.effects (before ++ (arrival r ++ later)) →
    ∃ difficulty, Asks (query r) text difficulty ∧
      model = (s.service.table.resolve difficulty).model

theorem job?_of_arrival {s : System σ} {before : List (Event ε)} (job : Job)
    (later : List (Event ε)) (ha : (s.after before).service.aborted = false) :
    (s.service.after (s.relayed (before ++ .start job :: later))).job?
      (s.after before).service.tasks.length = some job := by
  rw [← service_after, after_append, after_cons, service_after]
  refine Service.job?_after ?_ _
  have hstep : ((s.after before).step (.start job : Event ε)).service =
      ((s.after before).service.step (.start job)).1 := service_of_seen rfl
  rw [hstep]
  simp [Service.step, ha, Service.job?]

section Account

variable {s : System σ} {before : List (Event ε)} {r : HttpRequest}

theorem account_of_rejected (later : List (Event ε)) {response : HttpResponse}
    (hroute : route r = .reply response) (hstatus : response.status = 400)
    (hrejected : Rejected (query r)) : ResponseAccount s before later r := by
  have harrival : arrival r = ([] : List (Event ε)) := by simp [arrival, hroute]
  have hexchange : (s.after before).exchange r = .answered response := by simp [exchange, hroute]
  have hno : ∀ id, (s.after before).exchange r ≠ .computing id := fun id h => by
    cases hexchange.symm.trans h
  refine ⟨fun _ => ⟨harrival, response, hexchange⟩, fun h => absurd hrejected h, ?_,
    fun id _ h => absurd h (hno id), fun id _ _ _ h => absurd h (hno id),
    fun id _ h => absurd h (hno id), fun id _ _ h => absurd h (hno id)⟩
  rw [hexchange]
  rintro _ ⟨⟩
  exact fits_answered hstatus hrejected

theorem setPosition_mem {settings : EngineSettings} {p : Profile} {fen model text : String}
    (h : .setPosition model text ∈ Service.setupCalls settings p ∨
      ∃ n, .setPosition model text ∈ Service.searchCalls p fen n) :
    model = p.model ∧ text = fen := by
  rcases h with h | ⟨n, h⟩
  · simp [Service.setupCalls] at h
  · simpa [Service.searchCalls] using h

theorem account_of_asks {settings : EngineSettings} {table : Table}
    (hs : s.service = .new settings table .respond) (later : List (Event ε)) {fen : String}
    {difficulty : Double} (hroute : route r = .move fen difficulty)
    (hasks : Asks (query r) fen difficulty) : ResponseAccount s before later r := by
  have hgoing : ∀ es, (s.service.after es).aborted = false := by
    rw [hs]
    exact Service.going_after rfl rfl
  have harrival : arrival r = ([.start (.move fen difficulty)] : List (Event ε)) := by
    simp [arrival, hroute]
  generalize hnext : (s.after before).service.tasks.length = next
  have hexchange : (s.after before).exchange r = .computing next := by
    simp [exchange, hroute, hnext]
  have hjob : (s.service.after (s.relayed (before ++ (arrival r ++ later)))).job? next =
      some (.move fen difficulty) := by
    rw [harrival, ← hnext]
    exact job?_of_arrival _ later (service_after s before ▸ hgoing _)
  have hnew : s.service.stage? next = none := by
    rw [hs]
    rfl
  -- The task is a request, so whatever it ends with makes a response.
  have hfinished : ∀ result,
      (s.service.after (s.relayed (before ++ (arrival r ++ later)))).result? next = some result →
      ∃ response, (Exchange.computing next).response?
        (s.after (before ++ (arrival r ++ later))).service = some response := by
    intro result hresult
    obtain ⟨result, rfl⟩ := Service.exists_move_of_result hnew hjob hresult
    refine ⟨respond result, ?_⟩
    simp [Exchange.response?, service_after, hresult]
  refine ⟨fun h => absurd h hasks.not_rejected,
    fun _ => ⟨fen, difficulty, hasks, harrival, hexchange.trans (congrArg _ hnext.symm)⟩,
    fun response hresponse => ?_, fun id result h hresult => ?_,
    fun id p n since h harmed htold => ?_, fun id c h hc => ?_, fun id model text h hc => ?_⟩
  · rw [hexchange] at hresponse ⊢
    simp only [Exchange.response?, service_after] at hresponse
    split at hresponse <;> cases hresponse
    next result hresult =>
      rw [hs] at *
      exact fits_respond hasks.not_rejected
        (Service.move_iff_decidedBy hjob (hgoing _) hresult)
        (Service.noLegalMove_iff_decidedBy hjob (hgoing _) hresult)
        (Service.ne_invalidRequest hjob (hgoing _) hresult)
  all_goals cases hexchange.symm.trans h
  · exact hfinished result (service_after s _ ▸ hresult)
  · rw [hs] at harmed hgoing hfinished
    obtain ⟨result, hresult⟩ := Service.result_of_told harmed (hgoing _) htold
    exact hfinished _ hresult
  · exact ⟨fen, difficulty, hasks, call_mem_of_effects hnew hjob hc⟩
  · obtain ⟨rfl, rfl⟩ := setPosition_mem (call_mem_of_effects hnew hjob hc)
    exact ⟨difficulty, hasks, rfl⟩

end Account

/-- The status of every response is the one that the query and the first completion since the arming
call for. -/
theorem response_account (settings : EngineSettings) (table : Table) (engines : σ)
    (before later : List (Event ε)) {r : HttpRequest} (hget : r.method = "GET")
    (hroot : (splitTarget r.target).1 = ['/']) :
    ResponseAccount (⟨.new settings table .respond, engines⟩ : System σ) before later r := by
  have hroute := route_eq_routeQuery hget hroot
  by_cases hrejected : Rejected (query r)
  · obtain ⟨response, hresponse⟩ := routeQuery_eq_reply_iff.2 hrejected
    exact account_of_rejected later (hroute.trans hresponse) (status_of_reply hresponse) hrejected
  · obtain ⟨fen, difficulty, hasks⟩ := exists_asks_iff.2 hrejected
    exact account_of_asks rfl later (hroute.trans (routeQuery_eq_move.2 hasks)) hasks

/-- A request for a position with two kings. -/
def bareKingsRequest : HttpRequest :=
  ⟨"GET", "/?difficulty=0.4&fen=8%2F8%2F8%2F8%2F8%2F8%2F8%2FK6k+w+-+-+0+1"⟩

/-- A system whose engines are for rehearsal. -/
def rehearsing : System Rehearsal := ⟨.new .stock .stock .respond, .new "a2a3" false⟩

/-- What happens when such a system serves a request. -/
def servedRun : List (Event Rehearsal.Event) :=
  .run 0 :: List.replicate 7 (.engine .endCall) ++ [.engine .endSearch, .run 0]

/-- The engine calls among the effects of the run. -/
def servedCalls : List (TaskId × EngineCall) :=
  (rehearsing.effects (arrival bareKingsRequest ++ servedRun)).filterMap fun
    | .call id c => some (id, c)
    | .delivered _ => none

/-- The request for the two kings is answered with a move, and the engine is called for the
position in its query. -/
theorem response_of_servedRun :
    bareKingsRequest.method = "GET" ∧ (splitTarget bareKingsRequest.target).1 = ['/'] ∧
      ((rehearsing.exchange bareKingsRequest).response?
        (rehearsing.after (arrival bareKingsRequest ++ servedRun)).service).map (·.status) =
          some 200 ∧
      (0, .setPosition "elo-999" "8/8/8/8/8/8/8/K6k w - - 0 1") ∈ servedCalls ∧
      rehearsing.ResponseAccount [] servedRun bareKingsRequest := by
  have hroot : (splitTarget bareKingsRequest.target).1 = ['/'] := by decide
  refine ⟨rfl, hroot, by decide +kernel, by decide +kernel, ?_⟩
  exact response_account .stock .stock (Rehearsal.new "a2a3" false) [] servedRun rfl hroot

/-! ## Sessions -/

section Session

variable {ω σ ε : Type} [World ω σ ε]

/-- A system that settles makes a run. -/
theorem exists_run_of_settle (fuel : Nat) (w : ω) (s : System σ) :
    ∃ es : List (Event ε), (settle fuel w s).2 = s.after es := by
  induction fuel generalizing w s with
  | zero => exact ⟨[], rfl⟩
  | succ fuel ih =>
    unfold settle
    split
    · exact ⟨[], rfl⟩
    · split
      next e w' _ =>
        obtain ⟨es, hes⟩ := ih w' (s.step (.engine e))
        exact ⟨.engine e :: es, hes⟩
      next w' _ =>
        split
        next id _ =>
          obtain ⟨es, hes⟩ := ih w' (s.step (.run id : Event ε))
          exact ⟨.run id :: es, hes⟩
        next => exact ⟨[], rfl⟩

theorem exists_run_of_await (fuel : Nat) (id : TaskId) (waits : Nat) (w : ω) (s : System σ) :
    ∃ es : List (Event ε), (await fuel id waits w s).2 = s.after es := by
  induction waits generalizing w s with
  | zero => exact ⟨[], rfl⟩
  | succ waits ih =>
    obtain ⟨xs, hxs⟩ := exists_run_of_settle (ε := ε) fuel w s
    unfold await
    generalize settle fuel w s = out at hxs
    obtain ⟨w', s'⟩ := out
    subst hxs
    simp only
    split
    · exact ⟨xs, rfl⟩
    · split
      next e w'' _ =>
        obtain ⟨ys, hys⟩ := ih w'' ((s.after xs).step (.engine e))
        exact ⟨xs ++ .engine e :: ys, by rw [hys, after_append]; rfl⟩
      next => exact ⟨xs, rfl⟩

end Session

end System

namespace Session

variable {ω σ ε : Type} [World ω σ ε]

/-- A session that does a job makes a run of its system, and has the result that the job's task has
at the end. -/
theorem exists_run_of_perform {s s' : Session ω σ} {job : Job} {result : Option JobResult}
    (h : s.perform job = (result, s')) : ∃ es : List (System.Event ε),
    s'.system = s.system.after (.start job :: es) ∧
      s'.service.result? s.system.service.tasks.length = result := by
  obtain ⟨es, hes⟩ := System.exists_run_of_await (ε := ε) patience s.system.service.tasks.length
    patience s.world (s.system.step (.start job : System.Event ε))
  cases h
  exact ⟨es, hes, rfl⟩

/-- A session that answers a request makes a run of its system, and its report is the response that
is owed at the end, if there is one. -/
theorem answer_eq (s : Session ω σ) (r : HttpRequest) : ∃ es : List (System.Event ε),
    (s.answer r).2.system = s.system.after (System.arrival r ++ es) ∧
      (s.answer r).1 =
        match (s.system.exchange r).response? (s.answer r).2.service with
        | some response => .response (r.method = "HEAD") response
        | none => .stuck := by
  unfold answer System.exchange System.arrival
  cases Http.route r with
  | reply response => exact ⟨[], rfl, rfl⟩
  | move fen difficulty =>
    rcases hperform : s.perform (.move fen difficulty) with ⟨result, s'⟩
    obtain ⟨es, hsystem, hresult⟩ := exists_run_of_perform (ε := ε) hperform
    refine ⟨es, ?_, ?_⟩
    · simp only [hperform]
      split <;> rename_i heq <;> cases heq <;> exact hsystem
    · simp only [hperform, Http.Exchange.response?]
      rcases result with _ | (_ | _ | _ | _ | _ | _) <;> simp [hresult]

end Session

end Sparring
