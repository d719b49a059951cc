import Sparring.Proofs.Service.Admission
import Sparring.Proofs.Service.Blocks

/-!
# The visits of a run

A visit is a request that was let in, with the ways its calls have come back so far. Events add to
the visits in two ways: a request that is let in opens a visit (`visits_of_entering`), and a call
that comes back adds to the visit of its task (`visits_of_returned`). If all tasks are requests,
there is one visit for each task that was let in (`visits_task`).
-/

namespace Sparring.Service

/-! ## The requests of a run -/

/-- The request that a task is about. -/
def request? (s : Service) (id : TaskId) : Option Request :=
  match s.job? id with
  | some (.move fen difficulty) => some ⟨id, fen, difficulty⟩
  | _ => none

/-- The requests that have been let in, in order. -/
def requests (s : Service) (es : List Event) : List Request :=
  s.shown (fun s e => (s.entering e).filterMap s.request?) es

/-- The result of an outstanding call of a task. -/
def returns (id : TaskId) (s : Service) : Event → List CallResult
  | .returned j r => if j = id ∧ ((s.stage? id).bind Stage.call?).isSome then [r] else []
  | _ => []

/-- The requests that have been let in, in order, and how their calls have come back. -/
def visits (s : Service) (es : List Event) : List Visit :=
  (s.requests es).map fun r => ⟨r, s.shown (returns r.task) es⟩

/-- The call that is made. -/
def made (s : Service) (e : Event) : List EngineCall :=
  match (s.step e).2 with
  | some (.call _ c) => [c]
  | _ => []

theorem calls_eq_shown (s : Service) (es : List Event) : (s.steps es).2 = s.shown made es := by
  induction es generalizing s with
  | nil => rfl
  | cons e es ih =>
    rw [steps, shown, observe, ← shown, ← ih]
    unfold made
    rcases s.step e with ⟨s', _ | _ | _⟩ <;> rfl

/-! ## What a step does to the account -/

section Views

variable (s : Service) (es : List Event) (e : Event)

theorem calls_concat :
    (s.steps (es ++ [e])).2 = (s.steps es).2 ++ (s.after es).made e := by
  rw [calls_eq_shown, calls_eq_shown, shown_concat]

theorem requests_concat :
    s.requests (es ++ [e]) = s.requests es ++
      ((s.after es).entering e).filterMap (s.after es).request? := shown_concat _ s es e

theorem visits_concat :
    s.visits (es ++ [e]) =
      (s.requests es ++ ((s.after es).entering e).filterMap (s.after es).request?).map fun r =>
        ⟨r, s.shown (returns r.task) es ++ returns r.task (s.after es) e⟩ := by
  unfold visits
  rw [requests_concat]
  simp only [shown_concat]

end Views

section Steps

variable {s : Service} {es : List Event} {e : Event}

theorem request?_eq_some {id : TaskId} {r : Request} :
    s.request? id = some r ↔ r.task = id ∧ s.job? id = some (.move r.fen r.difficulty) := by
  unfold request?
  split
  next fen difficulty hjob =>
    rw [hjob]
    constructor
    · intro h
      cases h
      exact ⟨rfl, rfl⟩
    · rintro ⟨rfl, h⟩
      cases h
      rfl
  next hno =>
    constructor
    · intro h
      cases h
    · rintro ⟨-, h⟩
      exact absurd h (hno _ _)

theorem shown_of_waiting {α : Type} {look : Service → Event → List α} {id : TaskId}
    (hlook : ∀ s e, look s e ≠ [] → (s.step e).1.HasEntered id)
    (h : ¬(s.after es).HasEntered id) : s.shown look es = [] := by
  induction es using List.reverseRecOn with
  | nil => rfl
  | append_singleton es e ih =>
    rw [after_concat] at h
    have hno : look (s.after es) e = [] := by
      by_contra hne
      exact h (hlook _ _ hne)
    rw [shown_concat, ih fun hin => h (hin.step e), hno, List.append_nil]

/-- What comes back to a task comes back from a call of its stage. -/
theorem call?_of_returns {id : TaskId} (h : returns id s e ≠ []) :
    ∃ stage c r, s.stage? id = some stage ∧ stage.call? = some c ∧ e = .returned id r := by
  cases e with
  | returned j r =>
    simp only [returns] at h
    split at h
    next hj =>
      obtain ⟨rfl, hcall⟩ := hj
      obtain ⟨stage, hstage, hc⟩ := Option.bind_eq_some_iff.1 (Option.eq_some_of_isSome hcall)
      exact ⟨stage, _, r, hstage, hc, rfl⟩
    next => exact absurd rfl h
  | start | run | completed | hangUp => exact absurd rfl h

/-- A task whose calls come back has passed the gate. -/
theorem hasEntered_of_returns {id : TaskId} (h : returns id s e ≠ []) :
    (s.step e).1.HasEntered id := by
  obtain ⟨stage, c, -, hstage, hc, -⟩ := call?_of_returns h
  refine HasEntered.step ⟨stage, hstage, ?_⟩ e
  rintro rfl
  cases hc

theorem returns_of_waiting {id : TaskId} (h : ¬(s.after es).HasEntered id) :
    s.shown (returns id) es = [] :=
  shown_of_waiting (fun _ _ => hasEntered_of_returns) h

/-- As long as nobody is let in, results are added to the visits there are. -/
theorem visits_of_no_entering (hentering : (s.after es).entering e = []) :
    s.visits (es ++ [e]) = (s.visits es).map fun u =>
      ⟨u.request, u.results ++ returns u.request.task (s.after es) e⟩ := by
  rw [visits_concat, hentering, List.filterMap_nil, List.append_nil, visits, List.map_map]
  rfl

theorem visits_of_silent (hentering : (s.after es).entering e = [])
    (hreturns : ∀ id, returns id (s.after es) e = []) : s.visits (es ++ [e]) = s.visits es := by
  rw [visits_of_no_entering hentering]
  simp [hreturns]

theorem visits_of_entering {id : TaskId} {r : Request}
    (hentering : (s.after es).entering (.run id) = [id])
    (hr : (s.after es).request? id = some r) (hnew : ¬(s.after es).HasEntered id) :
    s.visits (es ++ [.run id]) = s.visits es ++ [⟨r, []⟩] := by
  have htask := (request?_eq_some.1 hr).1
  have hnone : s.shown (returns r.task) es = [] := by
    rw [htask]
    exact returns_of_waiting hnew
  rw [visits_concat, hentering]
  simp [hr, returns, visits, hnone]

/-- The return of a call is noted with the request that was let in last. -/
theorem visits_of_returned {id : TaskId} {stage : Stage} {c : EngineCall}
    (hid : (s.after es).stage? id = some stage) (hc : stage.call? = some c) (r : CallResult)
    {before : List Visit} {v : Visit} (hv : s.visits es = before ++ [v])
    (htask : v.request.task = id) (hbefore : ∀ u ∈ before, u.request.task ≠ id) :
    s.visits (es ++ [.returned id r]) = before ++ [⟨v.request, v.results ++ [r]⟩] := by
  have hcall : (((s.after es).stage? id).bind Stage.call?).isSome = true := by simp [hid, hc]
  have hother : before.map (fun u : Visit => (⟨u.request,
      u.results ++ returns u.request.task (s.after es) (.returned id r)⟩ : Visit)) = before := by
    refine (List.map_congr_left fun u hu => ?_).trans (List.map_id _)
    have hno : returns u.request.task (s.after es) (.returned id r) = [] :=
      if_neg fun h => hbefore u hu h.1.symm
    rw [hno, List.append_nil, id_eq]
  rw [visits_of_no_entering rfl, hv, List.map_append, hother, List.map_singleton]
  simp [returns, htask, hcall]

/-- Every request was let in as a task with this job, and each task once. -/
theorem mem_requests {r : Request} (h : r ∈ s.requests es) :
    (s.after es).job? r.task = some (.move r.fen r.difficulty) := by
  obtain ⟨before, e, later, rfl, hr⟩ := mem_observe.1 h
  rw [foldl_step] at hr
  obtain ⟨id, -, hid⟩ := List.mem_filterMap.1 hr
  obtain ⟨rfl, hjob⟩ := request?_eq_some.1 hid
  rw [after_append]
  exact job?_after hjob _

theorem entering_eq (s : Service) (e : Event) :
    s.entering e = [] ∨ ∃ id t, e = .run id ∧ s.aborted = false ∧ s.tasks[id]? = some t ∧
      t.stage = .waiting ∧ (s.gate.poll (.task id)).1 = true ∧ s.entering e = [id] := by
  rcases asking_eq s e with hsilent | ⟨id, t, rfl, ha, ht, hw, hasks⟩
  · exact Or.inl (by rw [entering, hsilent, List.filter_nil])
  · cases hp : (s.gate.poll (.task id)).1 with
    | false => exact Or.inl (by simp [entering, hasks, hp])
    | true => exact Or.inr ⟨id, t, rfl, ha, ht, hw, hp, by simp [entering, hasks, hp]⟩

/-- A task that is let in has waited until the gate was free. -/
theorem exists_waiting_of_entering {s : Service} {id : TaskId} (h : s.entering (.run id) = [id]) :
    ∃ t, s.aborted = false ∧ s.tasks[id]? = some t ∧ t.stage = .waiting ∧
      (s.gate.poll (.task id)).1 = true := by
  rcases entering_eq s (.run id) with hnone | ⟨_, t, he, ha, ht, hw, hp, -⟩
  · cases h.symm.trans hnone
  · cases he
    exact ⟨t, ha, ht, hw, hp⟩

/-- Whether every task is a request for a move. -/
def AllMoves (s : Service) : Prop := ∀ job ∈ s.jobs, ∃ fen difficulty, job = .move fen difficulty

theorem AllMoves.of_after {xs ys : List Event} (h : (s.after (xs ++ ys)).AllMoves) :
    (s.after xs).AllMoves := by
  intro job hjob
  refine h job ?_
  obtain ⟨id, hid⟩ := List.getElem?_of_mem hjob
  rw [← job?_eq] at hid
  rw [after_append]
  have hlater := job?_after hid ys
  rw [job?_eq] at hlater
  exact List.mem_of_getElem? hlater

theorem AllMoves.job_eq (h : s.AllMoves) {id : TaskId} {t : Task} (ht : s.tasks[id]? = some t) :
    ∃ fen difficulty, t.job = .move fen difficulty ∧
      s.request? id = some ⟨id, fen, difficulty⟩ := by
  have hjob := job?_of_task ht
  obtain ⟨fen, difficulty, he⟩ := h t.job (List.mem_of_getElem? ((job?_eq s id).symm.trans hjob))
  exact ⟨fen, difficulty, he, request?_eq_some.2 ⟨rfl, he ▸ hjob⟩⟩

theorem requests_task (hmoves : (s.after es).AllMoves) :
    (s.requests es).map (·.task) = s.admitted es := by
  induction es using List.reverseRecOn with
  | nil => rfl
  | append_singleton es e ih =>
    rw [requests_concat, admitted_concat, List.map_append, ih hmoves.of_after]
    rcases entering_eq (s.after es) e with hnone | ⟨id, t, -, -, ht, -, -, hone⟩
    · rw [hnone]
      rfl
    · obtain ⟨fen, difficulty, -, hr⟩ := hmoves.of_after.job_eq ht
      rw [hone]
      simp [hr]

theorem visits_task (hmoves : (s.after es).AllMoves) :
    (s.visits es).map (·.request.task) = s.admitted es := by
  rw [← requests_task hmoves, visits, List.map_map]
  rfl

end Steps

end Sparring.Service
