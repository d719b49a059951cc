import Sparring.Proofs.Service.Origins
import Sparring.Proofs.Service.Serial

/-!
# One call for an engine

A task that calls for the engine of a profile finds the engine in the registry, and then this is all
that happens, or it sets the engine up. A setup goes on as long as its calls succeed; the first one
that does not is the end of the task and leaves the registry as it was, and only when the last one
has succeeded does the registry get the engine. `obtaining_after` says so of every run, from the
moment the task is let in; what the registry was at that moment is all that the task depends on.

The invariant (`Obtaining`) has one case for each of these, and each case says how the task stands
(`Stands`): its stage, the calls it has made, the ways they have come back, and the registry as long
as nobody else has been let in.
-/

namespace Sparring.Service

/-! ## What a run shows of a task -/

/-- The call that a task makes. -/
def calling (id : TaskId) (s : Service) (e : Event) : List EngineCall :=
  match (s.step e).2 with
  | some (.call j c) => if j = id then [c] else []
  | _ => []

/-- The result that a task takes from its outstanding call. -/
def taking (id : TaskId) (s : Service) (e : Event) : List CallResult :=
  if s.aborted then [] else returns id s e

theorem hasEntered_of_calling {s : Service} {e : Event} {id : TaskId}
    (h : calling id s e ≠ []) : (s.step e).1.HasEntered id := by
  unfold calling at h
  split at h
  next j c hcall =>
    by_cases hj : j = id
    · subst hj
      obtain ⟨stage, hstage, hc⟩ := stage?_of_call hcall
      refine ⟨stage, hstage, ?_⟩
      rintro rfl
      cases hc
    · rw [if_neg hj] at h
      exact absurd rfl h
  next => exact absurd rfl h

theorem returns_of_taking {s : Service} {e : Event} {id : TaskId} (h : taking id s e ≠ []) :
    s.aborted = false ∧ returns id s e ≠ [] := by
  unfold taking at h
  split at h
  · exact absurd rfl h
  next ha => exact ⟨by simpa using ha, h⟩

theorem calling_of_quiet {s : Service} {e : Event} {out : Service × Option Effect}
    (hstep : s.step e = out) {id : TaskId} (hquiet : ∀ c, out.2 ≠ some (.call id c)) :
    calling id s e = [] := by
  unfold calling
  rw [hstep]
  split
  next j c hcall =>
    refine if_neg ?_
    rintro rfl
    exact hquiet c hcall
  · rfl

theorem calling_of_move {s : Service} {e : Event} {id : TaskId} {turn : Turn}
    (hstep : s.step e = move id turn) (hf : ¬turn.Fatal) :
    calling id s e = turn.stage.call?.toList := by
  unfold calling
  rw [hstep, move_of_not_fatal hf]
  cases turn.stage.call? <;> simp

/-- Nobody else makes a call when a task moves on. -/
theorem ne_call_of_move {i j : TaskId} (hne : j ≠ i) (turn : Turn) (c : EngineCall) :
    (move j turn).2 ≠ some (.call i c) := by
  by_cases hf : turn.Fatal
  · rw [move_of_fatal hf]
    exact fun h => by cases h
  · rw [move_of_not_fatal hf]
    intro h
    obtain ⟨_, -, heq⟩ := Option.map_eq_some_iff.1 h
    cases heq
    exact hne rfl

/-! ## How a task stands -/

/-- How a task stands that has passed the gate. -/
structure Stands (s : Service) (es : List Event) (id : TaskId) (stage : Stage)
    (calls : List EngineCall) (results : List CallResult) (registry : Registry) : Prop where
  stage_eq : (s.after es).stage? id = some stage
  calls_eq : s.shown (calling id) es = calls
  results_eq : s.shown (taking id) es = results
  /-- Only a task that is let in later can do anything about the registry. -/
  registry_eq : (s.admitted es).getLast? = some id → (s.after es).registry = registry

section Step

variable {s : Service} {es : List Event} {e : Event} {id : TaskId} {stage : Stage}
  {calls : List EngineCall} {results : List CallResult} {registry : Registry}

theorem Stands.of_same (h : Stands s es id stage calls results registry)
    (hstage : ((s.after es).step e).1.stage? id = (s.after es).stage? id)
    (hcalling : calling id (s.after es) e = []) (htaking : taking id (s.after es) e = [])
    (hregistry : (s.admitted (es ++ [e])).getLast? = some id →
      (s.admitted es).getLast? = some id ∧
        ((s.after es).step e).1.registry = (s.after es).registry) :
    Stands s (es ++ [e]) id stage calls results registry := by
  refine ⟨?_, ?_, ?_, fun hlast => ?_⟩
  · rw [after_concat, hstage, h.stage_eq]
  · rw [shown_concat, hcalling, h.calls_eq, List.append_nil]
  · rw [shown_concat, htaking, h.results_eq, List.append_nil]
  · obtain ⟨hbefore, hsame⟩ := hregistry hlast
    rw [after_concat, hsame, h.registry_eq hbefore]

theorem admitted_of_no_entering (h : (s.after es).entering e = []) :
    s.admitted (es ++ [e]) = s.admitted es := by
  rw [admitted_concat, h, List.append_nil]

/-- A task whose turn comes without a search has a call outstanding that has come back. -/
theorem Passage.returned {s : Service} {job : Job} {r : Option CallResult} {turn : Turn}
    (h : Passage s job stage r turn) (hno : stage.search? = none) :
    (∃ c, stage.call? = some c) ∧ ∃ result, r = some result := by
  refine ⟨call?_of_inside h.inside hno, ?_⟩
  cases h with
  | plain | armed | refused => exact ⟨_, rfl⟩
  | submitted | withdrawn | crashed | told => cases hno

theorem Stands.letIn (h : Stands s es id stage calls results registry) (hwait : stage ≠ .waiting)
    {j : TaskId} {t : Task} (ha : (s.after es).aborted = false)
    (ht : (s.after es).tasks[j]? = some t) (hw : t.stage = .waiting)
    (hp : ((s.after es).gate.poll (.task j)).1 = true)
    (hone : (s.after es).entering (.run j) = [j]) :
    Stands s (es ++ [.run j]) id stage calls results registry := by
  have hother : j ≠ id := by
    rintro rfl
    have hid := (stage?_of_task ht).symm.trans h.stage_eq
    exact hwait ((Option.some.inj hid).symm.trans hw)
  have hstep := step_of_letIn ha ht hw hp
  have htaking : taking id (s.after es) (.run j) = [] := by
    unfold taking
    split <;> rfl
  refine h.of_same ?_ (calling_of_quiet hstep (ne_call_of_move hother _)) htaking ?_
  · rw [hstep, stage?_move, if_neg fun hj => hother hj.1.symm]
    rfl
  · intro hlast
    rw [admitted_concat, hone, List.getLast?_concat] at hlast
    exact absurd (Option.some.inj hlast) hother

/-- Nobody is let in, and the outstanding call of the task does not come back. -/
theorem Stands.of_silent (h : Stands s es id stage calls results registry) (hq : Queued s es)
    (ho : (s.after es).Orderly) (hno : stage.search? = none)
    (he : (s.after es).aborted = false → ∀ r, e = .returned id r → stage.call? = none)
    (htaking : taking id (s.after es) e = []) (hsilent : (s.after es).entering e = []) :
    Stands s (es ++ [e]) id stage calls results registry := by
  have hid := h.stage_eq
  have hsame : ((s.after es).step e).1.stage? id = (s.after es).stage? id →
      (∀ c, ((s.after es).step e).2 ≠ some (.call id c)) →
      ((s.after es).step e).1.registry = (s.after es).registry →
      Stands s (es ++ [e]) id stage calls results registry := by
    intro hstage hcall hregistry
    refine h.of_same hstage (calling_of_quiet rfl hcall) htaking fun hlast => ⟨?_, hregistry⟩
    rwa [admitted_of_no_entering hsilent] at hlast
  cases ha : (s.after es).aborted with
  | true =>
    rw [step_of_aborted ha e] at hsame
    exact hsame rfl (fun _ hcall => by cases hcall) rfl
  | false =>
    have hc := change_step ha e
    generalize hout : (s.after es).step e = out at hc hsame
    cases hc with
    | idle | queued => exact hsame rfl (fun _ hcall => by cases hcall) rfl
    | completed c =>
      refine hsame rfl (fun _ hcall => ?_) rfl
      split at hcall <;> cases hcall
    | arrived job =>
      refine hsame ?_ (fun _ hcall => by cases hcall) rfl
      rw [stage?_arrive, if_neg]
      rintro rfl
      rw [stage?_next] at hid
      cases hid
    | @entered j t ht hw hp =>
      have hasks := asking_of_waiting ha ht hw
      simp [entering, hasks, hp] at hsilent
    | @passed _ j t r turn heq ht hpass =>
      -- It is another task that moves on, and that one was let in last.
      have hother : j ≠ id := by
        rintro rfl
        rw [Option.some.inj ((stage?_of_task ht).symm.trans hid)] at hpass
        obtain ⟨⟨c, hcall⟩, result, rfl⟩ := hpass.returned hno
        cases hcall.symm.trans (he ha result heq)
      refine h.of_same ?_ (calling_of_quiet hout (ne_call_of_move hother turn)) htaking ?_
      · rw [hout, stage?_move, if_neg fun hj => hother hj.1.symm, hpass.stage?_eq]
      · intro hlast
        rw [admitted_of_no_entering hsilent] at hlast
        have hj := hq.last j (ho j t.stage (stage?_of_task ht) hpass.inside)
        exact absurd (Option.some.inj (hj.symm.trans hlast)) hother

/-- A task stays as it stands until its outstanding call comes back. -/
theorem Stands.keep (h : Stands s es id stage calls results registry) (hq : Queued s es)
    (ho : (s.after es).Orderly) (hwait : stage ≠ .waiting) (hno : stage.search? = none)
    (he : (s.after es).aborted = false → ∀ r, e = .returned id r → stage.call? = none) :
    Stands s (es ++ [e]) id stage calls results registry := by
  have htaking : taking id (s.after es) e = [] := by
    by_contra htakes
    obtain ⟨ha, hreturns⟩ := returns_of_taking htakes
    obtain ⟨stage', c, r, hstage', hc, rfl⟩ := call?_of_returns hreturns
    cases h.stage_eq.symm.trans hstage'
    cases hc.symm.trans (he ha r rfl)
  rcases entering_eq (s.after es) e with hsilent | ⟨j, t, rfl, ha, ht, hw, hp, hone⟩
  · exact h.of_silent hq ho hno he htaking hsilent
  · exact h.letIn hwait ha ht hw hp hone

theorem Stands.move (h : Stands s es id stage calls results registry)
    (ha : (s.after es).aborted = false) {job : Job} (hjob : (s.after es).job? id = some job)
    {r : CallResult} {turn : Turn} (hturn : (s.after es).answer job stage r = some turn)
    (hquiet : turn.escalated = none) {registry' : Registry}
    (hregistry : (s.after es).registry = registry → turn.service.registry = registry') :
    Stands s (es ++ [.returned id r]) id turn.stage (calls ++ turn.stage.call?.toList)
      (results ++ [r]) registry' := by
  obtain ⟨t, ht, hstage⟩ := Option.map_eq_some_iff.1 h.stage_eq
  have hsame : t.job = job := Option.some.inj ((job?_of_task ht).symm.trans hjob)
  have hpass := passage_answer hturn
  have hf : ¬turn.Fatal := by simp [Turn.Fatal, hquiet]
  have hstep : (s.after es).step (.returned id r) = Service.move id turn := by
    rw [step_returned ha ht, hsame, hstage, hturn]
    rfl
  -- A task inside the gate that does not think waits for a call.
  have hcall : ∃ c, stage.call? = some c := by
    refine Option.ne_none_iff_exists'.1 fun hnone => ?_
    cases hpass with
    | plain _ hin hno =>
      obtain ⟨c, hc⟩ := call?_of_inside hin hno
      cases hc.symm.trans hnone
    | armed | refused | submitted | withdrawn | crashed => cases hnone
  have htaking : taking id (s.after es) (.returned id r) = [r] := by
    obtain ⟨c, hc⟩ := hcall
    simp [taking, returns, ha, h.stage_eq, hc]
  refine ⟨?_, ?_, ?_, fun hlast => ?_⟩
  · rw [after_concat, hstep, stage?_move, if_pos ⟨rfl, hf⟩, hpass.stage?_eq, h.stage_eq]
    rfl
  · rw [shown_concat, h.calls_eq, calling_of_move hstep hf]
  · rw [shown_concat, h.results_eq, htaking]
  · rw [admitted_of_no_entering rfl] at hlast
    rw [after_concat, hstep, registry_move]
    exact hregistry (h.registry_eq hlast)

/-- The call that has succeeded is one more of those that have. -/
theorem Stands.advance {made : List EngineCall} {c : EngineCall}
    (h : Stands s es id stage (made ++ [c]) (.replicate made.length .ok) registry)
    (ha : (s.after es).aborted = false) {job : Job} (hjob : (s.after es).job? id = some job)
    {stage' : Stage} {s' : Service}
    (hturn : (s.after es).answer job stage .ok = some (.to stage' s')) {registry' : Registry}
    (hregistry : (s.after es).registry = registry → s'.registry = registry') :
    Stands s (es ++ [.returned id .ok]) id stage' (made ++ [c] ++ stage'.call?.toList)
      (.replicate (made ++ [c]).length .ok) registry' := by
  have hstands := h.move ha hjob hturn rfl hregistry
  rw [replicate_ok_concat made c] at hstands
  exact hstands

theorem Stands.finish (h : Stands s es id stage calls results registry)
    (ha : (s.after es).aborted = false) {job : Job} (hjob : (s.after es).job? id = some job)
    {r : CallResult} {result : JobResult}
    (hturn : (s.after es).answer job stage r = some (.to (.finished result) (s.after es))) :
    Stands s (es ++ [.returned id r]) id (.finished result) calls (results ++ [r]) registry := by
  have hstands := h.move ha hjob hturn rfl fun hregistry => hregistry
  simpa [Turn.to, Stage.call?] using hstands

theorem stands_entered (hid : (s.after es).entering (.run id) = [id]) {job : Job}
    (hjob : (s.after es).job? id = some job) :
    Stands s (es ++ [.run id]) id ((s.after es).firstStage job)
      ((s.after es).firstStage job).call?.toList [] (s.after es).registry := by
  obtain ⟨t, ha, ht, hw, hp⟩ := exists_waiting_of_entering hid
  have hstage := stage?_of_task ht
  have hnew := not_hasEntered_of_waiting ht hw
  have hsame : t.job = job := Option.some.inj ((job?_of_task ht).symm.trans hjob)
  have hstep := step_of_letIn ha ht hw hp
  rw [hsame] at hstep
  have hf := not_fatal_to { s.after es with gate := ((s.after es).gate.poll (.task id)).2 }
    ((s.after es).firstStage job)
  refine ⟨?_, ?_, ?_, fun _ => ?_⟩
  · rw [after_concat, hstep, stage?_move, if_pos ⟨rfl, hf⟩]
    exact congrArg (Option.map _) hstage
  · rw [shown_concat, shown_of_waiting (fun _ _ => hasEntered_of_calling) hnew, List.nil_append,
      calling_of_move hstep hf]
    rfl
  · have hentered : ∀ s e, taking id s e ≠ [] → (s.step e).1.HasEntered id := fun _ _ h =>
      hasEntered_of_returns (returns_of_taking h).2
    rw [shown_concat, shown_of_waiting hentered hnew, List.nil_append]
    unfold taking
    split <;> rfl
  · rw [after_concat, hstep, registry_move]
    rfl

end Step

/-! ## Calls for an engine -/

/-- How a task stands that calls for the engine of `p` and was let in when the registry was the
given one. -/
inductive Obtaining (s : Service) (registry : Registry) (id : TaskId) (p : Profile)
    (es : List Event) : Prop
  /-- The engine was there. -/
  | found {entry : EngineEntry} : registry.find? p.model = some entry →
    Stands s es id (.finished (.obtained (.ok entry))) [] [] registry →
    Obtaining s registry id p es
  /-- The engine was not there and is being set up. -/
  | underway {setup : Setup} {made : List EngineCall} : registry.find? p.model = none →
    setup.Covers s.settings p → setupCalls s.settings p = made ++ setup.ahead s.settings p →
    Stands s es id (.setup p [] setup) (made ++ [setup.call p.model])
      (.replicate made.length .ok) registry →
    Obtaining s registry id p es
  /-- It has been set up. -/
  | created : registry.find? p.model = none →
    Stands s es id (.finished (.obtained (.ok ⟨p.model, s.settings.options p⟩)))
      (setupCalls s.settings p) (.replicate (setupCalls s.settings p).length .ok)
      (registry.insert ⟨p.model, s.settings.options p⟩) →
    Obtaining s registry id p es
  /-- A call of its setup has failed. -/
  | failed {setup : Setup} {made : List EngineCall} {causes : Causes} :
    registry.find? p.model = none →
    setupCalls s.settings p = made ++ setup.ahead s.settings p →
    Stands s es id (.finished (.obtained (.error (setup.context p.model :: causes))))
      (made ++ [setup.call p.model]) (.replicate made.length .ok ++ [.failed causes]) registry →
    Obtaining s registry id p es
  /-- A call of its setup has crashed. -/
  | crashed {setup : Setup} {made : List EngineCall} {message : String} :
    registry.find? p.model = none →
    setupCalls s.settings p = made ++ setup.ahead s.settings p →
    Stands s es id (.finished (.crashed message)) (made ++ [setup.call p.model])
      (.replicate made.length .ok ++ [.crashed message]) registry →
    Obtaining s registry id p es

section Step

variable {s : Service} {es : List Event} {id : TaskId} {p : Profile} {registry : Registry}

theorem Obtaining.returned {setup : Setup} {made : List EngineCall}
    (habsent : registry.find? p.model = none) (hcovers : setup.Covers s.settings p)
    (hsplit : setupCalls s.settings p = made ++ setup.ahead s.settings p)
    (h : Stands s es id (.setup p [] setup) (made ++ [setup.call p.model])
      (.replicate made.length .ok) registry)
    (ha : (s.after es).aborted = false) (hjob : (s.after es).job? id = some (.obtain p))
    (r : CallResult) : Obtaining s registry id p (es ++ [.returned id r]) := by
  have hsettings := settings_after s es
  cases r with
  | ok =>
    cases hnext : setup.next s.settings p with
    | more setup' =>
      have hturn : (s.after es).answer (.obtain p) (.setup p [] setup) .ok =
          some (.to (.setup p [] setup') (s.after es)) := by
        simp [answer, succeed, hsettings, hnext]
      have hstands := h.advance ha hjob hturn fun hregistry => hregistry
      refine .underway habsent ((covers_of_next hcovers).1 _ hnext) ?_ hstands
      rw [hsplit, next_eq_more hnext, List.append_assoc, List.singleton_append]
    | ready entry =>
      have hturn : (s.after es).answer (.obtain p) (.setup p [] setup) .ok =
          some (.to (.finished (.obtained (.ok entry)))
            { s.after es with registry := (s.after es).registry.insert entry }) := by
        simp [answer, succeed, hsettings, hnext, ready]
      have hstands := h.advance ha hjob hturn fun hregistry =>
        show (s.after es).registry.insert entry = registry.insert entry by rw [hregistry]
      have hall : made ++ [setup.call p.model] = setupCalls s.settings p := by
        rw [hsplit, (next_eq_ready hnext).1]
      rw [hall, (covers_of_next hcovers).2 _ hnext] at hstands
      exact .created habsent (by simpa [Stage.call?] using hstands)
  | failed causes => exact .failed habsent hsplit (h.finish ha hjob rfl)
  | crashed message => exact .crashed habsent hsplit (h.finish ha hjob rfl)

theorem Obtaining.step (h : Obtaining s registry id p es) (hq : Queued s es)
    (ho : (s.after es).Orderly) (hjob : (s.after es).job? id = some (.obtain p)) (e : Event) :
    Obtaining s registry id p (es ++ [e]) := by
  have hfinished : ∀ {result calls results registry},
      Stands s es id (.finished result) calls results registry →
      Stands s (es ++ [e]) id (.finished result) calls results registry := fun h =>
    h.keep hq ho Stage.noConfusion rfl fun _ _ _ => rfl
  cases h with
  | found hfind h => exact .found hfind (hfinished h)
  | created habsent h => exact .created habsent (hfinished h)
  | failed habsent hsplit h => exact .failed habsent hsplit (hfinished h)
  | crashed habsent hsplit h => exact .crashed habsent hsplit (hfinished h)
  | underway habsent hcovers hsplit h =>
    by_cases he : (s.after es).aborted = false ∧ ∃ r, e = .returned id r
    · obtain ⟨ha, r, rfl⟩ := he
      exact .returned habsent hcovers hsplit h ha hjob r
    · exact .underway habsent hcovers hsplit
        (h.keep hq ho Stage.noConfusion rfl fun ha r hr => absurd ⟨ha, r, hr⟩ he)

/-- A task that is let in finds the engine or begins to set it up. -/
theorem obtaining_entered (hid : (s.after es).entering (.run id) = [id])
    (hjob : (s.after es).job? id = some (.obtain p)) :
    Obtaining s (s.after es).registry id p (es ++ [.run id]) := by
  have hstands := stands_entered hid hjob
  have hfirst : (s.after es).firstStage (.obtain p) = (s.after es).seek (.obtain p) p [] := rfl
  rw [hfirst] at hstands
  cases hfind : (s.after es).registry.find? p.model with
  | some entry =>
    have hseek : (s.after es).seek (.obtain p) p [] = .finished (.obtained (.ok entry)) := by
      simp [seek, hfind, ready]
    rw [hseek] at hstands
    exact .found hfind hstands
  | none =>
    have hseek : (s.after es).seek (.obtain p) p [] = .setup p [] .creating := by
      simp [seek, hfind]
    have hcovers : Setup.creating.Covers s.settings p := trivial
    rw [hseek] at hstands
    exact .underway hfind hcovers (List.nil_append _).symm hstands

end Step

/-- From the moment it is let in, a task that calls for an engine stands in one of these ways. -/
theorem obtaining_after {s : Service} (ho : s.Orderly) (hfree : s.gate = .free) {xs ys : List Event}
    {id : TaskId} {p : Profile} (hid : (s.after xs).entering (.run id) = [id])
    (hjob : (s.after xs).job? id = some (.obtain p)) :
    Obtaining s (s.after xs).registry id p (xs ++ .run id :: ys) := by
  induction ys using List.reverseRecOn with
  | nil => exact obtaining_entered hid hjob
  | append_singleton ys e ih =>
    have hsplit : xs ++ .run id :: (ys ++ [e]) = (xs ++ .run id :: ys) ++ [e] := by simp
    rw [hsplit]
    refine ih.step (queued_after ho hfree _) (orderly_after ho _) ?_ e
    rw [after_append]
    exact job?_after hjob _

end Sparring.Service
