import Sparring.Proofs.Handoff.Slot
import Sparring.Service

/-!
# What a step of the service can do

The service is read here once, and everything later rests on what this module says.

* `Passage` lists the ways a task inside the gate can move on: a *plain* one, which has nothing
  to do with the handoff, and one for each thing that a task does to it.
* `Change` lists the ways the service can change, each with what it brings about outside.

`passage_answer`, `passage_look` and `change_step` say that nothing is missing.
-/

namespace Sparring

namespace Stage

/-- The search that is being submitted or awaited at a stage. -/
def search? : Stage → Option SearchId
  | submitting _ n | thinking _ n => some n
  | _ => none

/-- Whether a task at a stage has passed the gate and has not finished. -/
def isInside : Stage → Bool
  | waiting | finished _ => false
  | _ => true

/-- A stage without a search. A request that has finished there has an engine error. -/
def Plain : Stage → Prop
  | submitting .. | thinking .. => False
  | finished (.move r) => ∃ causes, r = .error (.engine causes)
  | _ => True

theorem search?_of_plain {stage : Stage} (h : stage.Plain) : stage.search? = none := by
  cases stage <;> first | rfl | exact h.elim

theorem isInside_of_search? {stage : Stage} {n : SearchId} (h : stage.search? = some n) :
    stage.isInside = true := by
  cases stage <;> first | rfl | cases h

theorem isInside_of_call? {stage : Stage} {c : EngineCall} (h : stage.call? = some c) :
    stage.isInside = true := by
  cases stage <;> first | rfl | cases h

/-- Only a task that submits a search has a `go` call outstanding. -/
theorem submitting_of_go {stage : Stage} {model : String} {n : SearchId} {limits : SearchLimits}
    (h : stage.call? = some (.go model n limits)) : ∃ p, stage = submitting p n := by
  cases stage with
  | submitting p m =>
    cases h
    exact ⟨p, rfl⟩
  | setup p rest s => cases s <;> cases h
  | waiting | startingGame | positioning | thinking | finished => cases h

theorem plain_failed (job : Job) (causes : Causes) : (finished (job.failed causes)).Plain := by
  cases job <;> first | trivial | exact ⟨_, rfl⟩

theorem plain_crashed (job : Job) (message : String) :
    (finished (job.crashed message)).Plain := by
  cases job <;> first | trivial | exact ⟨_, rfl⟩

end Stage

/-- What a reply means for the request. -/
def Reply.result (model : String) : Reply → Except ServiceError Move
  | .ok outcome => outcome.result model
  | .error e => .error (.handoff e)

/-- The error in a reply. -/
def Reply.error? : Reply → Option HandoffError
  | .ok _ => none
  | .error e => some e

namespace Service

/-! ## Passages -/

/-- The ways a task with a job moves on from a stage: on the return of its outstanding call, or
without one when it looks into its mailbox. -/
inductive Passage (s : Service) (job : Job) : Stage → Option CallResult → Turn → Prop
  /-- Nothing happens to the handoff; the registry may get an engine. -/
  | plain {stage stage' : Stage} {r : CallResult} (registry : Registry) :
      stage.isInside = true → stage.search? = none → stage'.Plain →
      Passage s job stage (some r) (.to stage' { s with registry })
  /-- The slot is empty and gets armed. -/
  | armed {p : Profile} {fen : String} :
      s.handoff.armed = none →
      Passage s job (.positioning p fen) (some .ok)
        (.to (.submitting p ⟨s.handoff.issued + 1⟩) { s with handoff := s.handoff.arm.2 })
  /-- The slot is armed for another search. -/
  | refused {p : Profile} {fen : String} {m : SearchId} :
      s.handoff.armed = some m →
      Passage s job (.positioning p fen) (some .ok)
        ⟨.finished (.move (.error (.handoff (.alreadyArmed m)))), s, some (.alreadyArmed m)⟩
  /-- The search has been submitted. -/
  | submitted {p : Profile} {n : SearchId} :
      Passage s job (.submitting p n) (some .ok) (.to (.thinking p n) s)
  /-- The search could not be submitted. -/
  | withdrawn {p : Profile} {n : SearchId} (causes : Causes) :
      Passage s job (.submitting p n) (some (.failed causes))
        (.to (.finished (job.failed causes))
          { s with handoff := ((s.handoff.disarm n).leave n).2 })
  /-- The submission of the search has crashed. -/
  | crashed {p : Profile} {n : SearchId} (message : String) :
      Passage s job (.submitting p n) (some (.crashed message))
        (.to (.finished (job.crashed message)) { s with handoff := (s.handoff.leave n).2 })
  /-- There is a reply. -/
  | told {p : Profile} {n : SearchId} {r : Reply} :
      s.handoff.box? n = some (some r) →
      Passage s job (.thinking p n) none
        ⟨.finished (.move (r.result p.model)), { s with handoff := (s.handoff.leave n).2 },
          r.error?⟩

theorem plain_ready (job : Job) (p : Profile) (rest : List Profile) (entry : EngineEntry) :
    (ready job p rest entry).Plain := by
  cases job <;> trivial

theorem plain_seek (s : Service) (job : Job) (p : Profile) (rest : List Profile) :
    (s.seek job p rest).Plain := by
  unfold seek
  split
  · exact plain_ready job p rest _
  · trivial

theorem plain_seekAll (s : Service) (job : Job) (rest : List Profile) :
    (s.seekAll job rest).Plain := by
  cases rest with
  | nil => trivial
  | cons p rest => exact s.plain_seek job p rest

theorem plain_firstStage (s : Service) (job : Job) : (s.firstStage job).Plain := by
  cases job with
  | listModels => trivial
  | preload => exact s.plain_seekAll _ _
  | _ => exact s.plain_seek _ _ _

theorem passage_arm (s : Service) (job : Job) (p : Profile) (fen : String) :
    Passage s job (.positioning p fen) (some .ok) (s.arm p) := by
  unfold arm
  cases ha : s.handoff.armed with
  | none =>
    have hpass : Passage s job (.positioning p fen) (some .ok)
        (.to (.submitting p ⟨s.handoff.issued + 1⟩) { s with handoff := s.handoff.arm.2 }) :=
      .armed ha
    rw [Handoff.arm_of_empty ha] at hpass ⊢
    exact hpass
  | some m =>
    rw [Handoff.arm_of_armed ha]
    exact .refused ha

theorem passage_succeed {s : Service} {job : Job} {stage : Stage} {turn : Turn}
    (h : s.succeed job stage = some turn) : Passage s job stage (some .ok) turn := by
  cases stage with
  | setup p rest setup =>
    simp only [succeed] at h
    split at h <;> cases h
    · exact .plain s.registry rfl rfl trivial
    · exact .plain _ rfl rfl (plain_ready job p rest _)
  | startingGame p rest =>
    cases job <;> cases h <;>
      first
        | exact .plain s.registry rfl rfl trivial
        | exact .plain s.registry rfl rfl (s.plain_seekAll _ rest)
  | positioning p fen =>
    cases job <;> cases h <;>
      first
        | exact .plain s.registry rfl rfl trivial
        | exact passage_arm s _ p fen
  | submitting p n =>
    cases h
    exact .submitted
  | waiting | thinking p n | finished r => cases h

theorem passage_fail {s : Service} {job : Job} {causes : Causes} {stage : Stage} {turn : Turn}
    (h : s.fail job causes stage = some turn) :
    Passage s job stage (some (.failed causes)) turn := by
  obtain ⟨c, hc, rfl⟩ := Option.map_eq_some_iff.1 h
  cases stage with
  | submitting p n => exact .withdrawn causes
  | setup | startingGame | positioning =>
    exact .plain s.registry rfl rfl (Stage.plain_failed job _)
  | waiting | thinking p n | finished r => cases hc

theorem passage_crash {s : Service} {job : Job} {message : String} {stage : Stage} {turn : Turn}
    (h : s.crash job message stage = some turn) :
    Passage s job stage (some (.crashed message)) turn := by
  obtain ⟨c, hc, rfl⟩ := Option.map_eq_some_iff.1 h
  cases stage with
  | submitting p n => exact .crashed message
  | setup | startingGame | positioning =>
    exact .plain s.registry rfl rfl (Stage.plain_crashed job _)
  | waiting | thinking p n | finished r => cases hc

theorem passage_answer {s : Service} {job : Job} {stage : Stage} {r : CallResult} {turn : Turn}
    (h : s.answer job stage r = some turn) : Passage s job stage (some r) turn := by
  cases r with
  | ok => exact passage_succeed h
  | failed causes => exact passage_fail h
  | crashed message => exact passage_crash h

theorem passage_look {s : Service} {job : Job} {p : Profile} {n : SearchId} {turn : Turn}
    (h : s.look p n = some turn) : Passage s job (.thinking p n) none turn := by
  unfold look at h
  rw [Handoff.collect_eq] at h
  rcases hb : s.handoff.box? n with _ | _ | r
  · simp [hb] at h
  · simp [hb] at h
  · rw [hb] at h
    cases r <;> cases h <;> exact .told hb

/-- Only a task whose submission has succeeded comes to think. -/
theorem Passage.of_thinking {s : Service} {job : Job} {stage : Stage} {r : Option CallResult}
    {turn : Turn} {p : Profile} {n : SearchId} (h : Passage s job stage r turn)
    (hturn : turn.stage = .thinking p n) : stage = .submitting p n ∧ r = some .ok := by
  cases h with
  | plain registry hin hno hplain =>
    simp only [Turn.to] at hturn
    rw [hturn] at hplain
    cases hplain
  | submitted =>
    cases hturn
    exact ⟨rfl, rfl⟩
  | armed | refused | withdrawn | crashed | told => cases hturn

/-- Only a task that has been issued the next number comes to submit. -/
theorem Passage.of_submitting {s : Service} {job : Job} {stage : Stage} {r : Option CallResult}
    {turn : Turn} {p : Profile} {n : SearchId} (h : Passage s job stage r turn)
    (hturn : turn.stage = .submitting p n) : n.number = s.handoff.issued + 1 := by
  cases h with
  | plain registry hin hno hplain =>
    simp only [Turn.to] at hturn
    rw [hturn] at hplain
    cases hplain
  | armed =>
    cases hturn
    rfl
  | refused | submitted | withdrawn | crashed | told => cases hturn

/-! ## Changes -/

/-- A turn that ends the process. -/
def Turn.Fatal (turn : Turn) : Prop := turn.escalated.any turn.service.policy.aborts = true

instance (turn : Turn) : Decidable turn.Fatal := inferInstanceAs (Decidable (_ = true))

/-- The gate after a task has moved on to a stage: one that has finished has left. -/
def gateAfter (gate : Gate Visitor) (id : TaskId) : Stage → Gate Visitor
  | .finished _ => gate.leave (.task id)
  | _ => gate

theorem move_of_fatal {id : TaskId} {turn : Turn} (h : turn.Fatal) :
    move id turn = ({ turn.service with aborted := true }, none) := if_pos h

theorem move_of_not_fatal {id : TaskId} {turn : Turn} (h : ¬turn.Fatal) :
    move id turn =
      ({ turn.service with
          tasks := turn.service.tasks.modify id fun t => { t with stage := turn.stage }
          gate := gateAfter turn.service.gate id turn.stage },
        turn.stage.call?.map (.call id)) := by
  obtain ⟨stage, service, escalated⟩ := turn
  refine (if_neg h).trans ?_
  cases stage <;> rfl

/-- The call that a task makes as it moves on is that of its stage. -/
theorem call?_of_effect {id j : TaskId} {turn : Turn} {c : EngineCall}
    (h : (move j turn).2 = some (.call id c)) : turn.stage.call? = some c := by
  by_cases hf : turn.Fatal
  · rw [move_of_fatal hf] at h
    cases h
  · rw [move_of_not_fatal hf] at h
    obtain ⟨c', hc, heq⟩ := Option.map_eq_some_iff.1 h
    cases heq
    exact hc

/-- The event that gives a task a turn: the return of its call, or a look around. -/
def turnEvent (id : TaskId) : Option CallResult → Event
  | some r => .returned id r
  | none => .run id

/-- Whether what became of a completion ends the process. -/
def ends (s : Service) : Except HandoffError Unit → Bool
  | .ok () => false
  | .error e => s.policy.aborts e

/-- Whether an event is nothing to the service: a turn for a task that has nothing to do of its own
accord, the return of a call that is not outstanding, or a handle that is dropped. -/
def Idle (s : Service) : Event → Prop
  | .run id => ∀ t, s.tasks[id]? = some t → t.stage ≠ .waiting ∧
      ∀ p n r, t.stage = .thinking p n → s.handoff.box? n ≠ some (some r)
  | .returned id _ => ∀ t, s.tasks[id]? = some t → t.stage.call? = none
  | .hangUp _ => True
  | _ => False

/-- The ways a service that has not been aborted can change. -/
inductive Change (s : Service) : Event → Service × Option Effect → Prop
  /-- The event does not apply. -/
  | idle {e : Event} : s.Idle e → Change s e (s, none)
  | arrived (job : Job) :
      Change s (.start job) ({ s with tasks := s.tasks ++ [⟨job, .waiting⟩] }, none)
  /-- A completion has been taken. -/
  | completed (c : Completion) :
      Change s (.completed c)
        ({ s with handoff := (s.handoff.fulfill c).2, aborted := s.ends (s.handoff.fulfill c).1 },
          if s.ends (s.handoff.fulfill c).1 then none
          else some (.delivered (s.handoff.fulfill c).1))
  /-- A task waits at the gate. -/
  | queued {id : TaskId} {t : Task} :
      s.tasks[id]? = some t → t.stage = .waiting → (s.gate.poll (.task id)).1 = false →
      Change s (.run id) ({ s with gate := (s.gate.poll (.task id)).2 }, none)
  /-- A task passes through the gate. -/
  | entered {id : TaskId} {t : Task} :
      s.tasks[id]? = some t → t.stage = .waiting → (s.gate.poll (.task id)).1 = true →
      Change s (.run id)
        (move id (.to (s.firstStage t.job) { s with gate := (s.gate.poll (.task id)).2 }))
  /-- A task inside the gate moves on. -/
  | passed {e : Event} {id : TaskId} {t : Task} {r : Option CallResult} {turn : Turn} :
      e = turnEvent id r → s.tasks[id]? = some t → Passage s t.job t.stage r turn →
      Change s e (move id turn)

/-- Only a stage without an outstanding call has no answer to a return. -/
theorem call?_of_answer {s : Service} {job : Job} {stage : Stage} {r : CallResult}
    (h : s.answer job stage r = none) : stage.call? = none := by
  cases r with
  | ok =>
    cases stage with
    | setup p rest setup =>
      simp only [answer, succeed] at h
      split at h <;> cases h
    | startingGame p rest => cases job <;> cases h
    | positioning p fen => cases job <;> cases h
    | submitting p n => cases h
    | waiting | thinking p n | finished r => rfl
  | failed causes => exact Option.map_eq_none_iff.1 h
  | crashed message => exact Option.map_eq_none_iff.1 h

/-- A task that finds a reply moves on. -/
theorem look_of_reply {s : Service} {p : Profile} {n : SearchId} {r : Reply}
    (h : s.handoff.box? n = some (some r)) : s.look p n ≠ none := by
  unfold look
  rw [Handoff.collect_eq, h]
  cases r <;> exact Option.some_ne_none _

theorem change_returned {s : Service} {id : TaskId} {t : Task} (ht : s.tasks[id]? = some t)
    (r : CallResult) :
    Change s (.returned id r) (s.moveIfAny id (s.answer t.job t.stage r)) := by
  cases ha : s.answer t.job t.stage r with
  | none =>
    refine .idle ?_
    intro u hu
    cases ht.symm.trans hu
    exact call?_of_answer ha
  | some turn => exact .passed (r := some r) rfl ht (passage_answer ha)

theorem change_run {s : Service} {id : TaskId} {t : Task} (ht : s.tasks[id]? = some t) :
    Change s (.run id) (s.run id t) := by
  obtain ⟨job, stage⟩ := t
  cases stage with
  | waiting =>
    simp only [run]
    rcases hp : s.gate.poll (.task id) with ⟨_ | _, gate⟩
    · have := Change.queued ht rfl (by rw [hp])
      rwa [hp] at this
    · have := Change.entered ht rfl (by rw [hp])
      rwa [hp] at this
  | thinking p n =>
    simp only [run]
    cases hl : s.look p n with
    | none =>
      refine .idle ?_
      intro u hu
      cases ht.symm.trans hu
      refine ⟨Stage.noConfusion, ?_⟩
      intro p' m r hm hb
      cases hm
      exact look_of_reply hb hl
    | some turn => exact .passed (r := none) rfl ht (passage_look hl)
  | setup | startingGame | positioning | submitting | finished =>
    refine .idle ?_
    intro u hu
    cases ht.symm.trans hu
    exact ⟨Stage.noConfusion, fun _ _ _ hm => by cases hm⟩

theorem change_complete {s : Service} (ha : s.aborted = false) (c : Completion) :
    Change s (.completed c) (s.complete c) := by
  have hc := Change.completed (s := s) c
  unfold complete
  rcases hf : s.handoff.fulfill c with ⟨e | _, handoff⟩
  · rw [hf] at hc
    simp only [ends] at hc
    cases he : s.policy.aborts e
    · simpa [he, ha] using hc
    · simpa [he, ha] using hc
  · rw [hf] at hc
    simpa [ends, ha] using hc

theorem step_of_aborted {s : Service} (ha : s.aborted = true) (e : Event) :
    s.step e = (s, none) := if_pos ha

/-- A step of a service that has not been aborted is one of the changes. -/
theorem change_step {s : Service} (ha : s.aborted = false) (e : Event) :
    Change s e (s.step e) := by
  have hgo : ¬s.aborted = true := by simp [ha]
  unfold step
  rw [if_neg hgo]
  cases e with
  | start job => exact .arrived job
  | run id =>
    simp only
    split
    next hn => exact .idle fun t ht => by rw [hn] at ht; cases ht
    next t ht => exact change_run ht
  | returned id r =>
    simp only
    split
    next hn => exact .idle fun t ht => by rw [hn] at ht; cases ht
    next t ht => exact change_returned ht r
  | completed c => exact change_complete ha c
  | hangUp id => exact .idle trivial

end Service

end Sparring
