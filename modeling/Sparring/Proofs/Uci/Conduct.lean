import Sparring.Proofs.Uci.Traffic

/-!
# The calls under way

The processes work on one call at most, and it is the outstanding call of the task inside the
gate (`Served`). Such a call is *on course*: it still has actions to do that belong to it, or it
is failing and cleans up (`OnCourse`). In particular only the call that submits a search has it
recorded (`Served.of_record`).
-/

namespace Sparring.Uci

/-- Whether a call has an error to return. -/
def Progress.Failing : Progress → Prop
  | .launching => False
  | .acting _ _ failure => failure.isSome

/-- The progress that a call can have made. -/
inductive OnCourse : EngineCall → Progress → Prop
  | launching (model : String) : OnCourse (.create model) .launching
  | acting {call : EngineCall} {process : Nat} (done : List Action) {rest : List Action} :
      Fleet.actions call = .ok (done ++ rest) → OnCourse call (.acting process rest none)
  /-- A write has failed. -/
  | broken {call : EngineCall} {process : Nat} (causes : Causes) :
      OnCourse call (.acting process (Fleet.afterFailure call) (some causes))
  /-- Nothing is left to do but to return an error. -/
  | spent {call : EngineCall} {process : Nat} (causes : Causes) :
      OnCourse call (.acting process [] (some causes))

namespace Fleet

/-- Of the calls only the submission of a search has one recorded. -/
theorem go_of_mem_actions {call : EngineCall} {as : List Action} {n : SearchId}
    (h : actions call = .ok as) (hn : .record n ∈ as) :
    ∃ model limits, call = .go model n limits := by
  cases call with
  | setPosition model fen =>
    simp only [actions] at h
    split at h <;> cases h
    cases List.mem_singleton.1 hn
  | create | setOption | newGame =>
    cases h
    simp at hn
  | go model m limits =>
    cases h
    simp only [List.mem_cons, List.not_mem_nil, or_false] at hn
    rcases hn with hn | hn
    · cases hn
      exact ⟨model, limits, rfl⟩
    · cases hn

end Fleet

namespace OnCourse

variable {call : EngineCall} {process : Nat} {a : Action} {rest : List Action}
  {failure : Option Causes}

/-- A call that has an action to do goes through its actions, or cleans up. -/
theorem of_acting (h : OnCourse call (.acting process (a :: rest) failure)) :
    (failure = none ∧ ∃ done, Fleet.actions call = .ok (done ++ a :: rest)) ∨
      (failure.isSome ∧ Fleet.afterFailure call = a :: rest) := by
  generalize hp : Progress.acting process (a :: rest) failure = progress at h
  cases h with
  | launching | spent => cases hp
  | broken causes =>
    obtain ⟨-, hrest, rfl⟩ := Progress.acting.inj hp
    exact Or.inr ⟨rfl, hrest.symm⟩
  | acting done hactions =>
    obtain ⟨-, rfl, rfl⟩ := Progress.acting.inj hp
    exact Or.inl ⟨rfl, done, hactions⟩

/-- Only the creation of an engine waits for a launch. -/
theorem create_of_launching (h : OnCourse call .launching) : ∃ model, call = .create model := by
  cases h
  exact ⟨_, rfl⟩

theorem go_of_record {n : SearchId}
    (h : OnCourse call (.acting process (.record n :: rest) failure)) :
    failure = none ∧ ∃ model limits, call = .go model n limits := by
  rcases h.of_acting with ⟨hf, done, hactions⟩ | ⟨-, hrest⟩
  · exact ⟨hf, Fleet.go_of_mem_actions hactions (by simp)⟩
  · cases call <;> cases hrest

theorem record_not_mem {n : SearchId}
    (h : OnCourse call (.acting process (.record n :: rest) failure)) (m : SearchId) :
    .record m ∉ rest := by
  obtain ⟨rfl, model, limits, rfl⟩ := h.go_of_record
  rcases h.of_acting with ⟨-, done, hactions⟩ | ⟨hfailing, -⟩
  · rcases done with _ | ⟨b, _ | ⟨b', done⟩⟩
    · cases hactions
      simp
    · cases hactions
    · simp [Fleet.actions] at hactions
  · cases hfailing

/-- Only the call that submits a search takes one back, as the last thing that it does when it is
failing. -/
theorem failing_of_withdraw (h : OnCourse call (.acting process (.withdraw :: rest) failure)) :
    rest = [] ∧ failure.isSome ∧ ∃ model n limits, call = .go model n limits := by
  rcases h.of_acting with ⟨-, done, hactions⟩ | ⟨hfailing, hrest⟩
  · have hmem : .withdraw ∈ done ++ .withdraw :: rest := by simp
    cases call with
    | create | setOption | newGame | go =>
      rw [← Except.ok.inj hactions] at hmem
      simp at hmem
    | setPosition model fen =>
      simp only [Fleet.actions] at hactions
      split at hactions
      · cases hactions
      · rw [← Except.ok.inj hactions] at hmem
        simp at hmem
  · cases call with
    | go model n limits => exact ⟨(List.cons.inj hrest).2.symm, hfailing, model, n, limits, rfl⟩
    | create | setOption | newGame | setPosition => cases hrest

/-- An action done, or passed over, leaves a call on course. -/
theorem next (h : OnCourse call (.acting process (a :: rest) failure)) :
    OnCourse call (.acting process rest failure) := by
  rcases h.of_acting with ⟨rfl, done, hactions⟩ | ⟨hf, hrest⟩
  · exact .acting (done ++ [a]) (by rw [hactions]; simp)
  · obtain ⟨causes, rfl⟩ := Option.isSome_iff_exists.1 hf
    have hnil : rest = [] := by
      cases call <;> cases hrest
      rfl
    rw [hnil]
    exact .spent causes

end OnCourse

namespace Fleet

variable {f : Fleet} {c : OpenCall}

theorem onCourse_opening (f : Fleet) (call : EngineCall) : OnCourse call (f.opening call) := by
  cases call with
  | create model => exact .launching model
  | setOption | newGame | setPosition | go =>
    simp only [opening]
    split
    next as h => exact .acting [] h
    · exact .spent _

theorem newest?_eq_some {k : Nat} {model : String} (h : f.newest? model = some k) :
    ∃ i, f.instances[k]? = some i ∧ i.model = model := by
  obtain ⟨⟨i, j⟩, hfind, rfl⟩ := Option.map_eq_some_iff.1 h
  have hmem := List.mem_of_find?_eq_some hfind
  rw [List.mem_reverse, List.mem_zipIdx_iff_getElem?] at hmem
  exact ⟨i, hmem, by simpa using List.find?_some hfind⟩

/-- How the only call under way goes on. -/
def GoesOn (c : OpenCall) (out : Fleet) : Prop :=
  ∃ progress, out.calls = [⟨c.task, c.call, progress⟩] ∧ OnCourse c.call progress ∧
    (c.progress.Failing → progress.Failing)

theorem goesOn_same (hc : f.calls = [c]) (ho : OnCourse c.call c.progress) : GoesOn c f :=
  ⟨c.progress, hc, ho, id⟩

theorem goesOn_advance (hc : f.calls = [c]) {progress : Progress}
    (ho : OnCourse c.call progress) (hf : c.progress.Failing → progress.Failing) :
    GoesOn c (f.advance c.task progress) := by
  refine ⟨progress, ?_, ho, hf⟩
  simp [advance, hc]

theorem goesOn_act (hc : f.calls = [c]) {process : Nat} {a : Action} {rest : List Action}
    {failure : Option Causes} (hp : c.progress = .acting process (a :: rest) failure)
    (ho : OnCourse c.call c.progress) (i : Instance) :
    GoesOn c (f.act c process i a rest failure) := by
  rw [hp] at ho
  have hmod : ∀ g, (f.modify process g).calls = [c] := fun _ => hc
  have hkeep : ∀ {as}, c.progress.Failing → (Progress.acting process as failure).Failing := by
    intro as h
    rwa [hp] at h
  cases a with
  | write line =>
    simp only [act]
    split
    · exact goesOn_advance (hmod _) ho.next hkeep
    · exact goesOn_advance hc (.broken _) fun _ => rfl
  | record n | withdraw => exact goesOn_advance (hmod _) ho.next hkeep
  | await b =>
    simp only [act]
    split
    next got acks hacks =>
      refine goesOn_advance (hmod _) ?_ hkeep
      split
      · exact ho.next
      · exact ho
    next hacks =>
      split
      · exact goesOn_advance hc (.spent _) fun _ => rfl
      · exact ⟨c.progress, hc, hp ▸ ho, id⟩

/-- How the only call under way returns: with success only if it is not failing. -/
def Returns (c : OpenCall) (out : Fleet × Option EngineEvent) : Prop :=
  out.1.calls = [] ∧ ∃ r, out.2 = some (.returned c.task r) ∧ (r = .ok → ¬c.progress.Failing)

/-- Whether a step lets no call return. -/
def NoReturn (out : Fleet × Option EngineEvent) : Prop := ∀ id r, out.2 ≠ some (.returned id r)

theorem close_only (hc : f.calls = [c]) : (f.close c.task).calls = [] := by
  simp [close, hc]

theorem returns_finish (hc : f.calls = [c]) (process : Nat) (failure : Option Causes)
    (hf : failure = none → ¬c.progress.Failing) : Returns c (f.finish c process failure) := by
  cases failure with
  | none => exact ⟨close_only hc, .ok, rfl, fun _ => hf rfl⟩
  | some causes =>
    refine ⟨?_, .failed causes, rfl, fun h => by cases h⟩
    simp only [finish]
    split
    · exact close_only (f := f.modify process Instance.kill) hc
    · exact close_only hc

/-- The only call under way returns or goes on when it is its turn. -/
theorem proceed_only (hc : f.calls = [c]) (ho : OnCourse c.call c.progress) :
    Returns c (f.proceed c) ∨ NoReturn (f.proceed c) ∧ GoesOn c (f.proceed c).1 := by
  unfold proceed
  split
  next hp => exact Or.inr ⟨fun _ _ h => (by cases h), goesOn_same hc ho⟩
  next process failure hp =>
    refine Or.inl (returns_finish hc process failure ?_)
    rintro rfl h
    rw [hp] at h
    cases h
  next process a rest failure hp =>
    split
    · exact Or.inl (returns_finish hc process _ fun h => by cases h)
    next i hi => exact Or.inr ⟨fun _ _ h => (by cases h), goesOn_act hc hp ho i⟩

theorem launched_only (hc : f.calls = [c]) (ho : OnCourse c.call c.progress)
    (failure : Option Causes) :
    Returns c (f.launched c failure) ∨ NoReturn (f.launched c failure) ∧
      GoesOn c (f.launched c failure).1 := by
  unfold launched
  cases hp : c.progress with
  | acting process rest failure' => exact Or.inr ⟨fun _ _ h => (by cases h), goesOn_same hc ho⟩
  | launching =>
    have hfailing : ∀ {progress : Progress}, c.progress.Failing → progress.Failing := by
      intro progress h
      rw [hp] at h
      cases h
    cases failure with
    | some causes => exact Or.inl ⟨close_only hc, .failed causes, rfl, fun h => by cases h⟩
    | none =>
      simp only
      split
      next as has =>
        exact Or.inr ⟨fun _ _ h => (by cases h), goesOn_advance hc (.acting [] has) hfailing⟩
      · exact Or.inr ⟨fun _ _ h => (by cases h), goesOn_advance hc (.spent _) hfailing⟩

theorem eq_of_call? (hc : f.calls = [c]) {task : TaskId} {d : OpenCall}
    (h : f.call? task = some d) : d = c := by
  have hmem := List.mem_of_find?_eq_some h
  rw [hc] at hmem
  exact List.mem_singleton.1 hmem

/-- In any step the only call under way returns or goes on. -/
theorem step_only (hc : f.calls = [c]) (ho : OnCourse c.call c.progress) (e : Event) :
    Returns c (f.step e) ∨ NoReturn (f.step e) ∧ GoesOn c (f.step e).1 := by
  have hsame : NoReturn (f, none) ∧ GoesOn c f := ⟨fun _ _ h => (by cases h), goesOn_same hc ho⟩
  cases e with
  | launched task failure =>
    simp only [step]
    split
    · exact Or.inr hsame
    next d hd =>
      cases eq_of_call? hc hd
      exact launched_only hc ho failure
  | proceed task =>
    simp only [step]
    split
    · exact Or.inr hsame
    next d hd =>
      cases eq_of_call? hc hd
      exact proceed_only hc ho
  | read process =>
    simp only [step]
    split
    · exact Or.inr hsame
    next i hi =>
      refine Or.inr ⟨?_, goesOn_same hc ho⟩
      intro id r h
      obtain ⟨_, -, h⟩ := Option.map_eq_some_iff.1 h
      cases h
  | print | closeOutput | closeInput =>
    exact Or.inr ⟨fun _ _ h => (by cases h), goesOn_same hc ho⟩

theorem step_none (hc : f.calls = []) (e : Event) :
    NoReturn (f.step e) ∧ (f.step e).1.calls = [] := by
  have hcall : ∀ task, f.call? task = none := by
    intro task
    simp [call?, hc]
  cases e with
  | launched task failure | proceed task =>
    simp only [step, hcall]
    exact ⟨fun _ _ h => (by cases h), hc⟩
  | read process =>
    simp only [step]
    split
    · exact ⟨fun _ _ h => (by cases h), hc⟩
    · refine ⟨?_, hc⟩
      intro id r h
      obtain ⟨_, -, h⟩ := Option.map_eq_some_iff.1 h
      cases h
  | print | closeOutput | closeInput => exact ⟨fun _ _ h => (by cases h), hc⟩

/-- How a call stands that returns, and with what. -/
inductive Returning (f : Fleet) : Progress → CallResult → Prop
  | unlaunched (causes : Causes) : Returning f .launching (.failed causes)
  | done (k : Nat) : Returning f (.acting k [] none) .ok
  | failed (k : Nat) (causes : Causes) : Returning f (.acting k [] (some causes)) (.failed causes)
  /-- The process that the call is for is not there. -/
  | absent {k : Nat} (a : Action) (rest : List Action) (failure : Option Causes)
      (causes : Causes) :
      f.instances[k]? = none → Returning f (.acting k (a :: rest) failure) (.failed causes)

/-- A call returns in one of these ways. In particular none crashes. -/
theorem returning_of_step {e : Event} {id : TaskId} {r : CallResult}
    (h : (f.step e).2 = some (.returned id r)) :
    ∃ c, f.call? id = some c ∧ Returning f c.progress r := by
  cases e with
  | launched task failure =>
    simp only [step] at h
    split at h
    · cases h
    next c hc =>
      unfold launched at h
      split at h
      · simp only at h
        split at h <;> cases h
      next causes hp =>
        cases h
        exact ⟨c, by rwa [task_of_call? hc], by rw [hp]; exact .unlaunched causes⟩
      · cases h
  | proceed task =>
    simp only [step] at h
    split at h
    · cases h
    next c hc =>
      unfold proceed at h
      split at h
      · cases h
      next k failure hp =>
        cases failure with
        | none =>
          cases h
          exact ⟨c, by rwa [task_of_call? hc], by rw [hp]; exact .done k⟩
        | some causes =>
          cases h
          exact ⟨c, by rwa [task_of_call? hc], by rw [hp]; exact .failed k causes⟩
      next k a rest failure hp =>
        split at h
        next hk =>
          cases h
          exact ⟨c, by rwa [task_of_call? hc], by rw [hp]; exact .absent a rest failure _ hk⟩
        · cases h
  | read process =>
    simp only [step] at h
    split at h
    · cases h
    · obtain ⟨_, -, h⟩ := Option.map_eq_some_iff.1 h
      cases h
  | print | closeOutput | closeInput => cases h

end Fleet

/-! ## The service and its processes -/

/-- The calls under way are what the tasks wait for: there is none, or one. -/
inductive Agrees (f : Fleet) (s : Service) : Prop
  | idle : f.calls = [] → (∀ id stage, s.stage? id = some stage → stage.call? = none) → Agrees f s
  | busy {c : OpenCall} {stage : Stage} :
      f.calls = [c] → s.stage? c.task = some stage → stage.call? = some c.call →
      OnCourse c.call c.progress → Agrees f s

namespace Agrees

variable {f : Fleet} {s : Service}

/-- Only the stages of the tasks matter. -/
theorem of_stages (h : Agrees f s) {s' : Service} (hs : ∀ id, s'.stage? id = s.stage? id) :
    Agrees f s' := by
  cases h with
  | idle hc hidle => exact .idle hc fun id stage hid => hidle id stage ((hs id).symm.trans hid)
  | busy hc hid hcall ho => exact .busy hc ((hs _).trans hid) hcall ho

theorem engines (h : Agrees f s) {e : Fleet.Event} (hn : Fleet.NoReturn (f.step e)) :
    Agrees (f.step e).1 s := by
  cases h with
  | idle hc hs => exact .idle (Fleet.step_none hc e).2 hs
  | busy hc hid hcall ho =>
    rcases Fleet.step_only hc ho e with ⟨-, r, hr, -⟩ | ⟨-, progress, hc', ho', -⟩
    · exact absurd hr (hn _ r)
    · exact .busy hc' hid hcall ho'

theorem returned (h : Agrees f s) {e : Fleet.Event} {id : TaskId} {r : CallResult}
    (hr : (f.step e).2 = some (.returned id r)) :
    (f.step e).1.calls = [] ∧ ∃ stage c, s.stage? id = some stage ∧ stage.call? = some c := by
  cases h with
  | idle hc hs => exact absurd hr ((Fleet.step_none hc e).1 id r)
  | busy hc hid hcall ho =>
    rcases Fleet.step_only hc ho e with ⟨hc', r', hr', -⟩ | ⟨hn, -⟩
    · cases hr.symm.trans hr'
      exact ⟨hc', _, _, hid, hcall⟩
    · exact absurd hr (hn id r)

/-- A task that is alone moves on while no call is under way. -/
theorem moved {turn : Service.Turn} {id : TaskId} {stage : Stage}
    (halone : turn.service.Alone id) (hid : turn.service.stage? id = some stage)
    (hf : ¬turn.Fatal) (hc : f.calls = []) :
    Agrees (System.takeUp f (Service.move id turn).2) (Service.move id turn).1 := by
  have hmoved : (Service.move id turn).1.stage? id = some turn.stage := by
    rw [Service.stage?_move, if_pos ⟨rfl, hf⟩, hid]
    rfl
  have heffect : (Service.move id turn).2 = turn.stage.call?.map (.call id) := by
    rw [Service.move_of_not_fatal hf]
  rw [heffect]
  cases hcall : turn.stage.call? with
  | some c =>
    refine .busy (c := ⟨id, c, f.opening c⟩) ?_ hmoved hcall (f.onCourse_opening c)
    simp [System.takeUp, Backend.begin, Fleet.begin, hc]
  | none =>
    refine .idle hc ?_
    intro j stage' hj
    by_cases he : j = id
    · subst he
      rw [← Option.some.inj (hmoved.symm.trans hj), hcall]
    · rw [Service.stage?_move, if_neg fun h => he h.1] at hj
      cases hcall' : stage'.call? with
      | none => rfl
      | some c =>
        have hout := halone j stage' he hj
        rw [Stage.isInside_of_call? hcall'] at hout
        cases hout

theorem calls_of_alone (h : Agrees f s) {id : TaskId} {stage : Stage} (halone : s.Alone id)
    (hid : s.stage? id = some stage) (hno : stage.call? = none) : f.calls = [] := by
  cases h with
  | idle hc _ => exact hc
  | @busy c stage' hc hc' hcall ho =>
    by_cases he : c.task = id
    · rw [he] at hc'
      rw [← Option.some.inj (hid.symm.trans hc'), hno] at hcall
      cases hcall
    · have hout := halone _ stage' he hc'
      rw [Stage.isInside_of_call? hcall] at hout
      cases hout

/-- The service takes an event that is not the return of a call. -/
theorem served (h : Agrees f s) (hs : s.Orderly) (ha : s.aborted = false) {e : Service.Event}
    (he : ∀ id r, e ≠ .returned id r) (ha' : (s.step e).1.aborted = false) :
    Agrees (System.takeUp f (s.step e).2) (s.step e).1 := by
  have hc := Service.change_step ha e
  generalize s.step e = out at hc ha'
  cases hc with
  | idle => exact h
  | queued => exact h.of_stages fun _ => rfl
  | arrived job =>
    cases h with
    | idle hc hidle =>
      refine .idle hc ?_
      intro id stage hid
      rw [Service.stage?_arrive] at hid
      split at hid
      · cases hid
        rfl
      · exact hidle id stage hid
    | @busy c stage hc hid hcall ho =>
      refine .busy hc ?_ hcall ho
      rw [Service.stage?_arrive]
      split
      next hnext =>
        rw [hnext, Service.stage?_next] at hid
        cases hid
      · exact hid
  | completed c =>
    simp only
    split <;> exact h.of_stages fun _ => rfl
  | @entered id t ht hw hp =>
    have halone := hs.alone_of_poll hp
    have hid := Service.stage?_of_task ht
    refine moved halone hid (Service.not_fatal_to _ _) (h.calls_of_alone halone hid ?_)
    rw [hw]
    rfl
  | @passed e id t r turn heq ht hpass =>
    have hid := Service.stage?_of_task ht
    have hf : ¬turn.Fatal := by
      intro hf
      rw [Service.move_of_fatal hf] at ha'
      cases ha'
    -- Its call has not come back, so it had none: it waited for its reply.
    have hno : t.stage.call? = none := by
      cases r with
      | some r => exact absurd heq (he id r)
      | none => generalize t.stage = stage at hpass; cases hpass; rfl
    exact moved (hpass.alone hs hid) ((hpass.stage?_eq id).trans hid) hf
      (h.calls_of_alone (hs.alone hid hpass.inside) hid hno)

/-- The service takes the return of the outstanding call. -/
theorem answered {id : TaskId} {stage : Stage} {c : EngineCall} (hc : f.calls = [])
    (hid : s.stage? id = some stage) (hcall : stage.call? = some c) (hs : s.Orderly)
    (ha : s.aborted = false) {r : CallResult}
    (ha' : (s.step (.returned id r)).1.aborted = false) :
    Agrees (System.takeUp f (s.step (.returned id r)).2) (s.step (.returned id r)).1 := by
  have hchange := Service.change_step ha (.returned id r)
  generalize s.step (.returned id r) = out at hchange ha'
  generalize he : Service.Event.returned id r = e at hchange
  cases hchange with
  | idle hidle =>
    subst he
    obtain ⟨t, ht, rfl⟩ := Option.map_eq_some_iff.1 hid
    rw [hidle t ht] at hcall
    cases hcall
  | arrived | completed | queued | entered => cases he
  | @passed e j t r' turn heq ht hpass =>
    have hf : ¬turn.Fatal := by
      intro hf
      rw [Service.move_of_fatal hf] at ha'
      cases ha'
    have hid' := Service.stage?_of_task ht
    exact moved (hpass.alone hs hid') ((hpass.stage?_eq j).trans hid') hf hc

end Agrees

/-- Whether the calls under way are what the tasks wait for. -/
def Served (s : System Fleet) : Prop := Agrees s.engines s.service

theorem served_step {s : System Fleet} (h : Served s) (hs : s.service.Orderly) (e : Occurrence)
    (ha' : (s.step e).service.aborted = false) : Served (s.step e) := by
  cases ha : s.service.aborted with
  | true =>
    rw [System.service_step, Service.aborted_after ha] at ha'
    cases ha'
  | false =>
    rw [System.step_eq] at ha' ⊢
    cases e with
    | start job => exact h.served hs ha (fun _ _ => Service.Event.noConfusion) ha'
    | run id => exact h.served hs ha (fun _ _ => Service.Event.noConfusion) ha'
    | hangUp id => exact h.served hs ha (fun _ _ => Service.Event.noConfusion) ha'
    | engine e =>
      simp only [System.relay, engineStep_of_going ha] at ha' ⊢
      rcases hev : (s.engines.step e).2 with _ | ⟨c⟩ | ⟨id, r⟩
      · simp only [hev] at ha' ⊢
        exact h.engines fun id r hr => by rw [hev] at hr; cases hr
      · simp only [hev, Option.map_some, EngineEvent.seen] at ha' ⊢
        exact (h.engines fun id r hr => by rw [hev] at hr; cases hr).served hs ha
          (fun _ _ => Service.Event.noConfusion) ha'
      · simp only [hev, Option.map_some, EngineEvent.seen] at ha' ⊢
        obtain ⟨hc, stage, c, hid, hcall⟩ := h.returned hev
        exact Agrees.answered hc hid hcall hs ha ha'

theorem served_start (settings : EngineSettings) (table : Table) (policy : FailurePolicy) :
    Served (start settings table policy) := by
  refine .idle rfl ?_
  intro id stage hid
  simp [start, Service.new, Service.stage?] at hid

theorem orderly_after_start (settings : EngineSettings) (table : Table) (policy : FailurePolicy)
    (es : List Occurrence) : ((start settings table policy).after es).service.Orderly := by
  rw [System.service_after]
  exact Service.orderly_after (Service.orderly_new settings table policy) _

/-- As long as the process goes on, the calls under way are what the tasks wait for. -/
theorem served_after {settings : EngineSettings} {table : Table} {policy : FailurePolicy}
    {es : List Occurrence} (h : ((start settings table policy).after es).service.aborted = false) :
    Served ((start settings table policy).after es) := by
  induction es using List.reverseRecOn with
  | nil => exact served_start settings table policy
  | append_singleton es e ih =>
    have hgo := System.going_of_append h
    rw [System.after_concat] at h ⊢
    exact served_step (ih hgo) (orderly_after_start settings table policy es) e h

/-! ## Who records a search -/

section Recording

variable {s : System Fleet} {k : Nat} {e : Occurrence} {d : Deed}

/-- Whether a deed is the action of a call. -/
def Deed.OfCall : Deed → Prop
  | .write _ | .record _ | .withdraw | .takeAck => True
  | _ => False

theorem acting_of_mem {c : OpenCall} (h : d ∈ c.deeds k) (hd : d.OfCall) :
    c.deeds k = [d] ∧
      ∃ a rest failure, c.progress = .acting k (a :: rest) failure ∧ a.deed = d := by
  unfold OpenCall.deeds at h ⊢
  rcases hp : c.progress with _ | ⟨process, _ | ⟨a, rest⟩, failure⟩
  · rw [hp] at h
    cases h
  · rw [hp] at h
    cases failure with
    | none => cases h
    | some causes =>
      simp only at h
      split at h
      · simp only [List.mem_cons, List.not_mem_nil, or_false] at h
        rcases h with rfl | rfl <;> cases hd
      · cases h
  · rw [hp] at h
    simp only at h
    split at h
    next hk =>
      cases hk
      cases List.mem_singleton.1 h
      exact ⟨if_pos rfl, a, rest, failure, rfl, rfl⟩
    · cases h

/-- The action of a call is done when the call goes on. -/
theorem Fleet.calling_of_deeds {f : Fleet} {e : Fleet.Event} (h : d ∈ f.deeds k e)
    (hd : d.OfCall) : f.deeds k e = [d] ∧ ∃ c, f.call? c.task = some c ∧ e = .proceed c.task ∧
      ∃ a rest failure, c.progress = .acting k (a :: rest) failure ∧ a.deed = d := by
  cases e with
  | launched => cases h
  | proceed task =>
    simp only [Fleet.deeds] at h ⊢
    cases hc : f.call? task with
    | none =>
      rw [hc] at h
      cases h
    | some c =>
      rw [hc] at h
      obtain ⟨hone, hacting⟩ := acting_of_mem h hd
      obtain rfl := Fleet.task_of_call? hc
      exact ⟨hone, c, hc, rfl, hacting⟩
  | read | print | closeOutput | closeInput =>
    simp only [Fleet.deeds] at h
    split at h
    · cases List.mem_singleton.1 h
      cases hd
    · cases h

theorem calling_of_mem (h : d ∈ deedsOf s k e) (hd : d.OfCall) :
    deedsOf s k e = [d] ∧ s.service.aborted = false ∧ ∃ c ∈ s.engines.calls,
      e = .engine (.proceed c.task) ∧ ∃ a rest failure,
        c.progress = .acting k (a :: rest) failure ∧ a.deed = d := by
  cases e with
  | start | run | hangUp => cases h
  | engine e =>
    simp only [deedsOf] at h ⊢
    split at h
    · cases h
    next hgo =>
      rw [if_neg hgo]
      rw [Bool.or_eq_true, not_or, Bool.not_eq_true] at hgo
      obtain ⟨hone, c, hc, rfl, hacting⟩ := Fleet.calling_of_deeds h hd
      exact ⟨hone, hgo.1, c, List.mem_of_find?_eq_some hc, rfl, hacting⟩

/-- A search is recorded by the task that is submitting it, and its call is not failing. -/
theorem Served.of_record (hs : Served s) {n : SearchId} (h : .record n ∈ deedsOf s k e) :
    ∃ c p, s.engines.calls = [c] ∧ s.service.stage? c.task = some (.submitting p n) ∧
      ¬c.progress.Failing := by
  obtain ⟨-, -, c, hc, -, a, rest, failure, hp, ha⟩ := calling_of_mem h trivial
  have harec : a = .record n := by cases a <;> cases ha; rfl
  cases hs with
  | idle hnone _ =>
    rw [hnone] at hc
    cases hc
  | @busy c' stage hone hid hcall ho =>
    rw [hone] at hc
    cases List.mem_singleton.1 hc
    rw [hp, harec] at ho
    obtain ⟨rfl, model, limits, hgo⟩ := ho.go_of_record
    rw [hgo] at hcall
    obtain ⟨p, rfl⟩ := Stage.submitting_of_go hcall
    refine ⟨c, p, hone, hid, ?_⟩
    rw [hp]
    exact Bool.false_ne_true

end Recording

end Sparring.Uci
