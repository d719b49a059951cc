import Sparring.Proofs.Service.Course

/-!
# Searches in flight

A search is in flight from the moment its submission has succeeded until its own completion comes
(`InFlight`). The request that has submitted it keeps the gate meanwhile, with one exception. A
completion that is not its own, and is the first to come, is what the request is told at its next
turn; then it leaves the gate, and the search goes on in its engine (`Told`).

`flight_account` says that nothing else has a request leave the gate before its search has been
answered, and so there is one search in flight unless a request has been told so.
-/

namespace Sparring.Service

/-! ## No access for those who have finished -/

/-- Whether a task that has finished has left the gate. -/
def Left (s : Service) : Prop :=
  ∀ id r, s.stage? id = some (.finished r) → s.gate.hasAccess (.task id) = false

theorem left_move {id : TaskId} {turn : Turn}
    (haccess : turn.service.gate.hasAccess (.task id) = true)
    (hfatal : turn.Fatal → turn.service.Left) : (move id turn).1.Left := by
  intro j r hj
  by_cases hf : turn.Fatal
  · rw [move_of_fatal hf] at hj ⊢
    exact hfatal hf j r hj
  · by_contra hin
    rw [gate_move, if_neg hf, Bool.not_eq_false] at hin
    have hsame := Gate.hasAccess_unique (hasAccess_of_gateAfter haccess hin) haccess
    cases Visitor.task.inj hsame
    rw [stage?_move, if_pos ⟨rfl, hf⟩] at hj
    obtain ⟨_, -, hstage⟩ := Option.map_eq_some_iff.1 hj
    rw [hstage, gateAfter, Gate.hasAccess_leave haccess] at hin
    cases hin

theorem left_step {s : Service} (ho : s.Orderly) (h : s.Left) (e : Event) : (s.step e).1.Left := by
  cases ha : s.aborted with
  | true => rwa [step_of_aborted ha]
  | false =>
    have hc := change_step ha e
    generalize s.step e = out at hc
    cases hc with
    | idle | completed => exact h
    | arrived job =>
      intro id r hid
      rw [stage?_arrive] at hid
      split at hid
      · cases hid
      · exact h id r hid
    | queued ht hw hp =>
      intro id r hid
      exact (Gate.hasAccess_poll_of_refused hp).trans (h id r hid)
    | entered ht hw hp =>
      exact left_move (Gate.hasAccess_poll hp) fun hf => absurd hf (not_fatal_to _ _)
    | @passed _ id t r turn he ht hpass =>
      refine left_move ?_ fun _ j r hj => ?_
      · rw [hpass.gate_eq]
        exact ho id t.stage (stage?_of_task ht) hpass.inside
      · rw [hpass.stage?_eq] at hj
        rw [hpass.gate_eq]
        exact h j r hj

theorem left_after (settings : EngineSettings) (table : Table) (policy : FailurePolicy)
    (es : List Event) : ((new settings table policy).after es).Left := by
  induction es using List.reverseRecOn with
  | nil =>
    intro id r hid
    simp [new, stage?] at hid
  | append_singleton es e ih =>
    rw [after_concat]
    exact left_step (orderly_after (orderly_new settings table policy) es) ih e

/-! ## Searches in flight -/

/-- Whether the submission of a search has succeeded and its own completion has not come. The events
since its arming are `later`. -/
structure InFlight (s : Service) (es : List Event) (id : TaskId) (n : SearchId)
    (later : List Event) : Prop where
  going : (s.after es).aborted = false
  armed : ∃ before p, es = before ++ .returned id .ok :: later ∧ (s.after before).Arms id p n
  submitted : firstReturn id later = some .ok
  unanswered : ∀ o, .completed ⟨some n, o⟩ ∉ later

theorem completed_of_first {es : List Event} {c : Completion} (h : firstCompletion es = some c) :
    .completed c ∈ es := by
  obtain ⟨e, he, hc⟩ := List.exists_of_findSome?_eq_some h
  cases e with
  | completed c' =>
    cases hc
    exact he
  | start | run | returned | hangUp => cases hc

/-- What a run says about the searches in flight. -/
structure FlightAccount (s : Service) (es : List Event) : Prop where
  /-- The request of a search in flight has the gate unless it has been told of a completion. -/
  held_iff : ∀ id n later, InFlight s es id n later →
    ((s.after es).gate.hasAccess (.task id) = true ↔ ¬Told id later)
  /-- It is told of a completion that was not for its search. -/
  stray : ∀ id n later, InFlight s es id n later → Told id later →
    ∃ c, firstCompletion later = some c ∧ c.search ≠ some n ∧
      (s.after es).result? id = some (.move (.error (.handoff (.mismatch n c.search))))
  /-- Two searches are in flight only if the request of one has been told so. -/
  alone : ∀ i m xs j n ys, InFlight s es i m xs → InFlight s es j n ys →
    (i = j ∧ m = n) ∨ Told i xs ∨ Told j ys

section Flight

variable {settings : EngineSettings} {table : Table} {policy : FailurePolicy} {es : List Event}
  {id : TaskId} {n : SearchId} {later : List Event}

/-- The request of a search in flight waits for its reply or has been told of a stray completion. -/
theorem InFlight.cases (h : InFlight (new settings table policy) es id n later) :
    (¬Told id later ∧
      ∃ p, ((new settings table policy).after es).stage? id = some (.thinking p n)) ∨
    Told id later ∧ ∃ c, firstCompletion later = some c ∧ c.search ≠ some n ∧
      ((new settings table policy).after es).result? id =
        some (.move (.error (.handoff (.mismatch n c.search)))) := by
  obtain ⟨ha, ⟨before, p, rfl, harms⟩, hret, hno⟩ := h
  cases harms.follows_after ha with
  | thinking _ htold hs => exact Or.inl ⟨htold, p, hs.stage_eq⟩
  | @told c htold _ hfirst hfin =>
    have hstray : c.search ≠ some n := by
      obtain ⟨search, outcome⟩ := c
      rintro rfl
      exact hno outcome (completed_of_first hfirst)
    refine Or.inr ⟨htold, c, hfirst, hstray, ?_⟩
    rw [verdict, if_neg hstray] at hfin
    exact result?_eq_some.2 hfin
  | submitting hret' | failed hret' | crashed hret' => cases hret.symm.trans hret'

end Flight

/-- A request leaves the gate before its search has been answered only over a completion that was
not for its search. -/
theorem flight_account (settings : EngineSettings) (table : Table) (policy : FailurePolicy)
    (es : List Event) : FlightAccount (new settings table policy) es := by
  have ho := orderly_after (orderly_new settings table policy) es
  refine ⟨?_, ?_, ?_⟩
  · intro id n later h
    rcases h.cases with ⟨htold, p, hid⟩ | ⟨htold, c, -, -, hresult⟩
    · exact ⟨fun _ => htold, fun _ => ho id _ hid rfl⟩
    · have hout := left_after settings table policy es id _ (result?_eq_some.1 hresult)
      rw [hout]
      exact ⟨fun h => (by cases h), fun h => absurd htold h⟩
  · intro id n later h htold
    rcases h.cases with ⟨hno, -⟩ | ⟨-, hstray⟩
    · exact absurd htold hno
    · exact hstray
  · intro i m xs j n ys hi hj
    rcases hi.cases with ⟨-, p, hid⟩ | ⟨htold, -⟩
    · rcases hj.cases with ⟨-, q, hjd⟩ | ⟨htold, -⟩
      · cases ho.inside_unique hid rfl hjd rfl
        cases hid.symm.trans hjd
        exact Or.inl ⟨rfl, rfl⟩
      · exact Or.inr (Or.inr htold)
    · exact Or.inr (Or.inl htold)

/-- While the engine of the first request searches, a stray completion comes; the second request
finds the gate free and submits its own search. -/
def overtakingRun : List Event :=
  [.start bareKings, .start bareKings, .run 0] ++ List.replicate 7 (.returned 0 .ok) ++
    [.run 1, .completed ⟨none, .noLegalMove⟩, .run 0, .run 1, .returned 1 .ok, .returned 1 .ok,
      .returned 1 .ok]

/-- The second search is submitted before the first has been answered. -/
theorem two_searches_in_flight :
    (∃ later, InFlight (new .stock .stock .respond) overtakingRun 0 ⟨1⟩ later) ∧
      (∃ later, InFlight (new .stock .stock .respond) overtakingRun 1 ⟨2⟩ later) ∧
      ((new .stock .stock .respond).after overtakingRun).gate.hasAccess (.task 0) = false := by
  have hfirst : ((new .stock .stock .respond).after (overtakingRun.take 8)).Arms 0 _ ⟨1⟩ :=
    ⟨rfl, ⟨_, _, _, _, rfl, rfl, rfl⟩, rfl, rfl⟩
  have hsecond : ((new .stock .stock .respond).after (overtakingRun.take 15)).Arms 1 _ ⟨2⟩ :=
    ⟨rfl, ⟨_, _, _, _, rfl, rfl, rfl⟩, rfl, rfl⟩
  refine ⟨⟨overtakingRun.drop 9, rfl, ⟨overtakingRun.take 8, _, rfl, hfirst⟩, rfl, ?_⟩,
    ⟨overtakingRun.drop 16, rfl, ⟨overtakingRun.take 15, _, rfl, hsecond⟩, rfl, ?_⟩, rfl⟩
  · simp [overtakingRun]
  · simp [overtakingRun]

end Sparring.Service
