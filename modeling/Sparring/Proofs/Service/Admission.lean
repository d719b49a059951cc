import Sparring.Proofs.Run
import Sparring.Proofs.Service.Occupancy

/-!
# First come, first served

A task that asks at the gate is let in at once or gets a place in the queue, and it keeps that
place until its turn has come. So the tasks are let in in the order in which they first asked:
of those who have asked, the first ones have been let in, and the others are the ones to whom
access has been promised, in this order (`Queued`). `admitted_isPrefix_asked` says so of every run,
whatever the tasks have to do, whatever their engines do, and whether or not the process goes on.
-/

namespace Sparring

namespace Service

/-! ## What a run shows -/

section Shown

variable {α : Type} (look : Service → Event → List α) (s : Service)

/-- What a run shows, if an event `e` in a state `s` shows `look s e`. -/
def shown (es : List Event) : List α := observe (fun s e => (s.step e).1) look s es

theorem foldl_step (es : List Event) : es.foldl (fun s e => (s.step e).1) s = s.after es := by
  induction es generalizing s with
  | nil => rfl
  | cons e es ih => rw [List.foldl_cons, ih, after_cons]

theorem shown_concat (es : List Event) (e : Event) :
    s.shown look (es ++ [e]) = s.shown look es ++ look (s.after es) e := by
  rw [shown, observe_concat, foldl_step]
  rfl

end Shown

/-- The task that asks at the gate. -/
def asking (s : Service) : Event → List TaskId
  | .run id =>
    match s.aborted, s.stage? id with
    | false, some .waiting => [id]
    | _, _ => []
  | _ => []

/-- The task that asks at the gate and is let in. -/
def entering (s : Service) (e : Event) : List TaskId :=
  (s.asking e).filter fun id => (s.gate.poll (.task id)).1

/-- The tasks that have asked at the gate, in the order in which each first did. -/
def asked (s : Service) (es : List Event) : List TaskId := (s.shown asking es).eraseDups

/-- The tasks that have been let in, in order. -/
def admitted (s : Service) (es : List Event) : List TaskId := s.shown entering es

theorem asking_eq (s : Service) (e : Event) :
    s.asking e = [] ∨ ∃ id t, e = .run id ∧ s.aborted = false ∧ s.tasks[id]? = some t ∧
      t.stage = .waiting ∧ s.asking e = [id] := by
  cases e with
  | run id =>
    simp only [asking]
    split
    next ha hid =>
      obtain ⟨t, ht, hw⟩ := Option.map_eq_some_iff.1 hid
      exact Or.inr ⟨id, t, rfl, ha, ht, hw, rfl⟩
    · exact Or.inl rfl
  | start | returned | completed | hangUp => exact Or.inl rfl

theorem asking_of_waiting {s : Service} {id : TaskId} {t : Task} (ha : s.aborted = false)
    (ht : s.tasks[id]? = some t) (hw : t.stage = .waiting) : s.asking (.run id) = [id] := by
  simp [asking, ha, stage?_of_task ht, hw]

theorem admitted_concat (s : Service) (es : List Event) (e : Event) :
    s.admitted (es ++ [e]) = s.admitted es ++ (s.after es).entering e := shown_concat _ s es e

theorem asked_of_silent {s : Service} {es : List Event} {e : Event}
    (h : (s.after es).asking e = []) : s.asked (es ++ [e]) = s.asked es := by
  rw [asked, shown_concat, h, List.append_nil]
  rfl

/-- Only a task that asks for the first time is new among those who have asked. -/
theorem asked_of_asking {s : Service} {es : List Event} {e : Event} {id : TaskId}
    (h : (s.after es).asking e = [id]) :
    s.asked (es ++ [e]) = if id ∈ s.asked es then s.asked es else s.asked es ++ [id] := by
  unfold asked
  rw [shown_concat, h, eraseDups_concat]

theorem admitted_of_silent {s : Service} {es : List Event} {e : Event}
    (h : (s.after es).asking e = []) : s.admitted (es ++ [e]) = s.admitted es := by
  rw [admitted_concat, entering, h, List.filter_nil, List.append_nil]

theorem admitted_of_asking {s : Service} {es : List Event} {e : Event} {id : TaskId}
    (h : (s.after es).asking e = [id]) :
    s.admitted (es ++ [e]) =
      if ((s.after es).gate.poll (.task id)).1 then s.admitted es ++ [id] else s.admitted es := by
  rw [admitted_concat, entering, h, List.filter_cons, List.filter_nil]
  split <;> simp

/-! ## Nobody asks again -/

theorem step_returned {s : Service} (ha : s.aborted = false) {id : TaskId} {t : Task}
    (ht : s.tasks[id]? = some t) (r : CallResult) :
    s.step (.returned id r) = s.moveIfAny id (s.answer t.job t.stage r) := by
  simp [step, ha, ht]

theorem step_run {s : Service} (ha : s.aborted = false) {id : TaskId} {t : Task}
    (ht : s.tasks[id]? = some t) : s.step (.run id) = s.run id t := by
  simp [step, ha, ht]

theorem step_of_refused {s : Service} (ha : s.aborted = false) {id : TaskId} {t : Task}
    (ht : s.tasks[id]? = some t) (hw : t.stage = .waiting)
    (hp : (s.gate.poll (.task id)).1 = false) :
    s.step (.run id) = ({ s with gate := (s.gate.poll (.task id)).2 }, none) := by
  rw [step_run ha ht]
  simp only [run, hw]
  split
  next hpoll => rw [hpoll]
  next hpoll => simp [hpoll] at hp

theorem step_of_letIn {s : Service} (ha : s.aborted = false) {id : TaskId} {t : Task}
    (ht : s.tasks[id]? = some t) (hw : t.stage = .waiting)
    (hp : (s.gate.poll (.task id)).1 = true) :
    s.step (.run id) =
      move id (.to (s.firstStage t.job) { s with gate := (s.gate.poll (.task id)).2 }) := by
  rw [step_run ha ht]
  simp only [run, hw]
  split
  next hpoll => simp [hpoll] at hp
  next hpoll =>
    rw [hpoll]
    rfl

theorem step_of_absent {s : Service} (ha : s.aborted = false) {id : TaskId}
    (ht : s.tasks[id]? = none) :
    s.step (.run id) = (s, none) ∧ ∀ r, s.step (.returned id r) = (s, none) := by
  simp [step, ha, ht]

theorem ready_ne_waiting (job : Job) (p : Profile) (rest : List Profile) (entry : EngineEntry) :
    ready job p rest entry ≠ .waiting := by
  cases job <;> exact Stage.noConfusion

theorem seek_ne_waiting (s : Service) (job : Job) (p : Profile) (rest : List Profile) :
    s.seek job p rest ≠ .waiting := by
  unfold seek
  split
  · exact ready_ne_waiting job p rest _
  · exact Stage.noConfusion

theorem seekAll_ne_waiting (s : Service) (job : Job) (rest : List Profile) :
    s.seekAll job rest ≠ .waiting := by
  cases rest with
  | nil => exact Stage.noConfusion
  | cons p rest => exact s.seek_ne_waiting job p rest

theorem firstStage_ne_waiting (s : Service) (job : Job) : s.firstStage job ≠ .waiting := by
  cases job with
  | listModels => exact Stage.noConfusion
  | preload => exact s.seekAll_ne_waiting _ _
  | move | obtain | place => exact s.seek_ne_waiting _ _ _

theorem succeed_ne_waiting {s : Service} {job : Job} {stage : Stage} {turn : Turn}
    (h : s.succeed job stage = some turn) : turn.stage ≠ .waiting := by
  cases stage with
  | setup p rest setup =>
    simp only [succeed] at h
    split at h <;> cases h
    · exact Stage.noConfusion
    · exact ready_ne_waiting job p rest _
  | startingGame p rest =>
    cases job <;> cases h <;> first | exact Stage.noConfusion | exact s.seekAll_ne_waiting _ rest
  | positioning p fen =>
    have harm : (s.arm p).stage ≠ .waiting := by
      unfold arm
      split <;> exact Stage.noConfusion
    cases job <;> cases h <;> first | exact Stage.noConfusion | exact harm
  | submitting p n =>
    cases h
    exact Stage.noConfusion
  | waiting | thinking | finished => cases h

/-- A task that moves on does not come to the gate again. -/
theorem answer_ne_waiting {s : Service} {job : Job} {stage : Stage} {r : CallResult} {turn : Turn}
    (h : s.answer job stage r = some turn) : turn.stage ≠ .waiting := by
  cases r with
  | ok => exact succeed_ne_waiting h
  | failed | crashed =>
    obtain ⟨c, hc, rfl⟩ := Option.map_eq_some_iff.1 h
    cases stage <;> exact Stage.noConfusion

theorem look_ne_waiting {s : Service} {p : Profile} {n : SearchId} {turn : Turn}
    (h : s.look p n = some turn) : turn.stage ≠ .waiting := by
  have hpass : Passage s .listModels (.thinking p n) none turn := passage_look h
  cases hpass
  exact Stage.noConfusion

/-- Whether a task has passed the gate. -/
def HasEntered (s : Service) (id : TaskId) : Prop :=
  ∃ stage, s.stage? id = some stage ∧ stage ≠ .waiting

theorem not_hasEntered_of_waiting {s : Service} {id : TaskId} {t : Task}
    (ht : s.tasks[id]? = some t) (hw : t.stage = .waiting) : ¬s.HasEntered id := by
  rintro ⟨stage, hstage, hne⟩
  rw [stage?_of_task ht, hw] at hstage
  exact hne (Option.some.inj hstage).symm

/-- Only a task that has passed the gate moves on from its stage. -/
theorem Passage.hasEntered {s : Service} {id : TaskId} {t : Task} {r : Option CallResult}
    {turn : Turn} (h : Passage s t.job t.stage r turn) (ht : s.tasks[id]? = some t) :
    s.HasEntered id := by
  refine ⟨t.stage, stage?_of_task ht, fun hw => ?_⟩
  have hin := h.inside
  rw [hw] at hin
  cases hin

theorem HasEntered.move {s : Service} {id : TaskId} (h : s.HasEntered id) {j : TaskId} {turn : Turn}
    (hstage : ∀ i, turn.service.stage? i = s.stage? i) (hturn : turn.stage ≠ .waiting) :
    (move j turn).1.HasEntered id := by
  obtain ⟨stage, hid, hw⟩ := h
  unfold HasEntered
  rw [stage?_move, hstage, hid]
  split
  · exact ⟨turn.stage, rfl, hturn⟩
  · exact ⟨stage, rfl, hw⟩

theorem HasEntered.moveIfAny {s : Service} {id : TaskId} (h : s.HasEntered id) {j : TaskId}
    {turn : Option Turn} (hturn : ∀ t, turn = some t →
      t.stage ≠ .waiting ∧ ∀ i, t.service.stage? i = s.stage? i) :
    (s.moveIfAny j turn).1.HasEntered id := by
  cases turn with
  | none => exact h
  | some turn =>
    obtain ⟨hne, hstage⟩ := hturn turn rfl
    exact h.move hstage hne

theorem HasEntered.run {s : Service} {id : TaskId} (h : s.HasEntered id) (j : TaskId) (t : Task) :
    (s.run j t).1.HasEntered id := by
  obtain ⟨job, stage⟩ := t
  cases stage with
  | waiting =>
    simp only [Service.run]
    split
    · exact h
    next gate _ =>
      exact h.move (fun _ => rfl) (firstStage_ne_waiting _ job)
  | thinking p n =>
    refine h.moveIfAny fun turn hturn => ⟨look_ne_waiting hturn, ?_⟩
    have hpass : Passage s job (.thinking p n) none turn := passage_look hturn
    exact hpass.stage?_eq
  | setup | startingGame | positioning | submitting | finished => exact h

/-- A task that has passed the gate has passed it for good. -/
theorem HasEntered.step {s : Service} {id : TaskId} (h : s.HasEntered id) (e : Event) :
    (s.step e).1.HasEntered id := by
  cases ha : s.aborted with
  | true => rwa [step_of_aborted ha]
  | false =>
    have hgo : ¬s.aborted = true := by simp [ha]
    cases e with
    | start job =>
      rw [Service.step, if_neg hgo]
      obtain ⟨stage, hid, hw⟩ := h
      refine ⟨stage, ?_, hw⟩
      rw [stage?_arrive, if_neg ?_, hid]
      rintro rfl
      rw [stage?_next] at hid
      cases hid
    | run j =>
      cases ht : s.tasks[j]? with
      | none => rwa [(step_of_absent ha ht).1]
      | some t =>
        rw [step_run ha ht]
        exact h.run j t
    | returned j r =>
      cases ht : s.tasks[j]? with
      | none => rwa [(step_of_absent ha ht).2]
      | some t =>
        rw [step_returned ha ht]
        exact h.moveIfAny fun turn hturn =>
          ⟨answer_ne_waiting hturn, (passage_answer hturn).stage?_eq⟩
    | completed c =>
      rw [Service.step, if_neg hgo]
      unfold complete
      obtain ⟨stage, hid, hw⟩ := h
      refine ⟨stage, ?_, hw⟩
      split
      · exact hid
      · split <;> exact hid
    | hangUp j => rwa [Service.step, if_neg hgo]

/-! ## Those who wait are in the line -/

/-- How the line at the gate stands to those who have asked and those who have been let in. -/
structure Queued (s : Service) (es : List Event) : Prop where
  /-- Those who have asked have been let in or are in the line. -/
  line : ∃ ids : List TaskId, (s.after es).gate.line = ids.map .task ∧
    s.asked es = s.admitted es ++ ids
  entered : ∀ id ∈ s.admitted es, (s.after es).HasEntered id
  /-- Nobody is let in twice. -/
  nodup : (s.admitted es).Nodup
  /-- The one who has access was let in last. -/
  last : ∀ id, (s.after es).gate.hasAccess (.task id) = true → (s.admitted es).getLast? = some id

/-- When the task with access moves on, nobody's place changes. -/
theorem line_gateAfter {gate : Gate Visitor} {id : TaskId}
    (h : gate.hasAccess (.task id) = true) (stage : Stage) :
    (gateAfter gate id stage).line = gate.line := by
  cases stage with
  | finished => exact Gate.line_leave h
  | waiting | setup | startingGame | positioning | submitting | thinking => rfl

/-- When the task with access moves on, nobody gets access. -/
theorem hasAccess_of_gateAfter {gate : Gate Visitor} {id : TaskId}
    (h : gate.hasAccess (.task id) = true) {stage : Stage} {v : Visitor}
    (hv : (gateAfter gate id stage).hasAccess v = true) : gate.hasAccess v = true := by
  cases stage with
  | finished =>
    rw [gateAfter, Gate.hasAccess_leave h] at hv
    cases hv
  | waiting | setup | startingGame | positioning | submitting | thinking => exact hv

section Step

variable {s : Service} {es : List Event} {e : Event}

theorem line_of_silent (ho : s.Orderly) (h : s.asking e = []) :
    (s.step e).1.gate.line = s.gate.line ∧
      ∀ id, (s.step e).1.gate.hasAccess (.task id) = true → s.gate.hasAccess (.task id) = true := by
  cases ha : s.aborted with
  | true =>
    rw [step_of_aborted ha]
    exact ⟨rfl, fun _ h => h⟩
  | false =>
    have hc := change_step ha e
    generalize s.step e = out at hc
    cases hc with
    | idle | arrived | completed => exact ⟨rfl, fun _ h => h⟩
    | queued ht hw | entered ht hw =>
      rw [asking_of_waiting ha ht hw] at h
      cases h
    | @passed _ id t r turn he ht hpass =>
      have hin := ho id t.stage (stage?_of_task ht) hpass.inside
      rw [gate_move, hpass.gate_eq]
      split
      · exact ⟨rfl, fun _ h => h⟩
      · exact ⟨line_gateAfter hin _, fun j hj => hasAccess_of_gateAfter hin hj⟩

theorem Queued.silent (h : Queued s es) (ho : (s.after es).Orderly)
    (hsilent : (s.after es).asking e = []) : Queued s (es ++ [e]) := by
  obtain ⟨hline, haccess⟩ := line_of_silent ho hsilent
  refine ⟨?_, ?_, ?_, ?_⟩
  · rw [after_concat, hline, asked_of_silent hsilent, admitted_of_silent hsilent]
    exact h.line
  · rw [after_concat, admitted_of_silent hsilent]
    exact fun id hid => (h.entered id hid).step e
  · rw [admitted_of_silent hsilent]
    exact h.nodup
  · rw [after_concat, admitted_of_silent hsilent]
    exact fun id hid => h.last id (haccess id hid)

/-- A task that waits has not been let in, so it is in the line if it has asked before. -/
theorem Queued.mem_line (h : Queued s es) {id : TaskId}
    (hw : (s.after es).stage? id = some .waiting) :
    id ∉ s.admitted es ∧ (id ∈ s.asked es ↔ .task id ∈ (s.after es).gate.line) := by
  have hno : id ∉ s.admitted es := by
    intro hid
    obtain ⟨stage, hstage, hne⟩ := h.entered id hid
    exact hne (Option.some.inj (hstage.symm.trans hw))
  obtain ⟨ids, hline, hasked⟩ := h.line
  refine ⟨hno, ?_⟩
  rw [hline, hasked, List.mem_append, List.mem_map]
  constructor
  · intro hid
    exact ⟨id, hid.resolve_left hno, rfl⟩
  · rintro ⟨j, hj, hid⟩
    cases hid
    exact Or.inr hj

theorem Queued.refused (h : Queued s es) {id : TaskId}
    (hw : (s.after es).stage? id = some .waiting) (hasks : (s.after es).asking e = [id])
    (hp : ((s.after es).gate.poll (.task id)).1 = false)
    (hgate : (s.after (es ++ [e])).gate = ((s.after es).gate.poll (.task id)).2) :
    Queued s (es ++ [e]) := by
  have hadmitted : s.admitted (es ++ [e]) = s.admitted es := by
    rw [admitted_of_asking hasks, hp]
    rfl
  refine ⟨?_, ?_, ?_, ?_⟩
  · obtain ⟨ids, hline, hasked⟩ := h.line
    have hmem := (h.mem_line hw).2
    rw [hgate, Gate.line_poll_of_refused hp, asked_of_asking hasks, hadmitted]
    by_cases hid : id ∈ s.asked es
    · rw [if_pos (hmem.1 hid), if_pos hid]
      exact ⟨ids, hline, hasked⟩
    · rw [if_neg fun hl => hid (hmem.2 hl), if_neg hid]
      exact ⟨ids ++ [id], by simp [hline], by simp [hasked]⟩
  · rw [after_concat, hadmitted]
    exact fun j hj => (h.entered j hj).step e
  · rw [hadmitted]
    exact h.nodup
  · rw [hgate, hadmitted]
    exact fun j hj => h.last j ((Gate.hasAccess_poll_of_refused hp).symm.trans hj)

/-- A task that is let in is the first of the line, or there is none. -/
theorem Queued.letIn (h : Queued s es) {id : TaskId}
    (hw : (s.after es).stage? id = some .waiting) (hasks : (s.after es).asking e = [id])
    (hp : ((s.after es).gate.poll (.task id)).1 = true)
    (hentered : (s.after (es ++ [e])).HasEntered id)
    (hline' : (s.after (es ++ [e])).gate.line = ((s.after es).gate.poll (.task id)).2.line)
    (haccess : ∀ j, (s.after (es ++ [e])).gate.hasAccess (.task j) = true → j = id) :
    Queued s (es ++ [e]) := by
  have hadmitted : s.admitted (es ++ [e]) = s.admitted es ++ [id] := by
    rw [admitted_of_asking hasks, hp]
    rfl
  obtain ⟨hnew, hmem⟩ := h.mem_line hw
  have hno : (s.after es).gate.hasAccess (.task id) = false := by
    by_contra hacc
    exact hnew (List.mem_of_getLast? (h.last id (by simpa using hacc)))
  refine ⟨?_, ?_, ?_, ?_⟩
  · obtain ⟨ids, hline, hasked⟩ := h.line
    rw [hline', asked_of_asking hasks, hadmitted]
    -- It has been the first of the line, or it has never asked and nobody waits.
    rcases Gate.line_poll hp hno with hfirst | ⟨hnone, hnone'⟩
    · rw [if_pos (hmem.2 (by rw [hfirst]; exact List.mem_cons_self))]
      obtain ⟨j, rest, rfl, hj, hrest⟩ := List.map_eq_cons_iff.1 (hline.symm.trans hfirst)
      cases hj
      exact ⟨rest, hrest.symm, by rw [hasked]; simp⟩
    · have hfirst : id ∉ s.asked es := by
        rw [hmem, hnone]
        exact List.not_mem_nil
      rw [hnone] at hline
      rw [List.map_eq_nil_iff.1 hline.symm, List.append_nil] at hasked
      rw [if_neg hfirst, hnone']
      exact ⟨[], rfl, by rw [hasked, List.append_nil]⟩
  · rw [hadmitted]
    intro j hj
    rcases List.mem_append.1 hj with hj | hj
    · rw [after_concat]
      exact (h.entered j hj).step e
    · rwa [List.mem_singleton.1 hj]
  · rw [hadmitted]
    refine List.nodup_append.2 ⟨h.nodup, List.pairwise_singleton _ _, fun a ha b hb he => ?_⟩
    rw [List.mem_singleton.1 hb] at he
    exact hnew (he ▸ ha)
  · rw [hadmitted]
    intro j hj
    rw [haccess j hj, List.getLast?_concat]

theorem Queued.step (h : Queued s es) (ho : (s.after es).Orderly) (e : Event) :
    Queued s (es ++ [e]) := by
  rcases asking_eq (s.after es) e with hsilent | ⟨id, t, rfl, ha, ht, hw, hasks⟩
  · exact h.silent ho hsilent
  · have hid : (s.after es).stage? id = some .waiting := by rw [stage?_of_task ht, hw]
    cases hp : ((s.after es).gate.poll (.task id)).1 with
    | false =>
      exact h.refused hid hasks hp (by rw [after_concat, step_of_refused ha ht hw hp])
    | true =>
      have hin := Gate.hasAccess_poll hp
      have hstep := step_of_letIn ha ht hw hp
      refine h.letIn hid hasks hp ?_ ?_ ?_
      · rw [after_concat, hstep]
        refine ⟨_, ?_, firstStage_ne_waiting (s.after es) t.job⟩
        rw [stage?_move, if_pos ⟨rfl, not_fatal_to _ _⟩]
        exact congrArg (Option.map _) hid
      · rw [after_concat, hstep, gate_move, if_neg (not_fatal_to _ _)]
        exact line_gateAfter hin _
      · intro j hj
        rw [after_concat, hstep, gate_move, if_neg (not_fatal_to _ _)] at hj
        exact Visitor.task.inj (Gate.hasAccess_unique (hasAccess_of_gateAfter hin hj) hin)

end Step

/-- Tasks are let in in the order in which they first asked. -/
theorem queued_after {s : Service} (ho : s.Orderly) (hfree : s.gate = .free) (es : List Event) :
    Queued s es := by
  induction es using List.reverseRecOn with
  | nil =>
    refine ⟨⟨[], ?_, rfl⟩, ?_, List.nodup_nil, fun id hid => ?_⟩
    · rw [after_nil, hfree]
      rfl
    · intro id hid
      cases hid
    · rw [after_nil, hfree] at hid
      cases hid
  | append_singleton es e ih => exact ih.step (orderly_after ho es) e

/-- Of the tasks that have asked at the gate, the first ones have been let in. -/
theorem admitted_isPrefix_asked {s : Service} (ho : s.Orderly) (hfree : s.gate = .free)
    (es : List Event) : s.admitted es <+: s.asked es := by
  obtain ⟨ids, -, hasked⟩ := (queued_after ho hfree es).line
  exact ⟨_, hasked.symm⟩

/-! ## Those who have finished -/

/-- Whether only tasks have access, and none that has finished. -/
def Vacated (s : Service) : Prop :=
  ∀ v, s.gate.hasAccess v = true →
    ∃ id stage, v = .task id ∧ s.stage? id = some stage ∧ ∀ r, stage ≠ .finished r

theorem vacated_of_free {s : Service} (h : s.gate = .free) : s.Vacated := by
  intro v hv
  rw [h] at hv
  cases hv

theorem vacated_move {turn : Turn} {id : TaskId}
    (hid : turn.service.gate.hasAccess (.task id) = true) (hthere : turn.service.stage? id ≠ none)
    (hfatal : turn.Fatal → turn.service.Vacated) : (move id turn).1.Vacated := by
  by_cases hf : turn.Fatal
  · rw [move_of_fatal hf]
    exact hfatal hf
  · intro v hv
    rw [gate_move, if_neg hf] at hv
    obtain ⟨old, hold⟩ := Option.ne_none_iff_exists'.1 hthere
    refine ⟨id, turn.stage, Gate.hasAccess_unique (hasAccess_of_gateAfter hid hv) hid, ?_, ?_⟩
    · rw [stage?_move, if_pos ⟨rfl, hf⟩, hold]
      rfl
    · intro r hr
      rw [hr, gateAfter, Gate.hasAccess_leave hid] at hv
      cases hv

theorem vacated_step {s : Service} (ho : s.Orderly) (h : s.Vacated) (e : Event) :
    (s.step e).1.Vacated := by
  cases ha : s.aborted with
  | true => rwa [step_of_aborted ha]
  | false =>
    have hc := change_step ha e
    generalize s.step e = out at hc
    cases hc with
    | idle | completed => exact h
    | arrived job =>
      intro v hv
      obtain ⟨id, stage, rfl, hstage, hgoing⟩ := h v hv
      refine ⟨id, stage, rfl, ?_, hgoing⟩
      rw [stage?_arrive, if_neg ?_, hstage]
      rintro rfl
      rw [stage?_next] at hstage
      cases hstage
    | queued ht hw hp => exact fun v hv => h v ((Gate.hasAccess_poll_of_refused hp).symm.trans hv)
    | entered ht hw hp =>
      refine vacated_move (Gate.hasAccess_poll hp) ?_ fun hf => absurd hf (not_fatal_to _ _)
      exact fun hno => Option.some_ne_none _ ((stage?_of_task ht).symm.trans hno)
    -- Whoever has the gate is the task that moves on, and it keeps the gate unless it finishes.
    | @passed _ id t r turn he ht hpass =>
      have hid := stage?_of_task ht
      refine vacated_move ?_ ?_ fun _ v hv => ?_
      · rw [hpass.gate_eq]
        exact ho id t.stage hid hpass.inside
      · rw [hpass.stage?_eq, hid]
        exact Option.some_ne_none _
      · rw [hpass.gate_eq] at hv
        obtain ⟨j, stage, hj, hstage, hgoing⟩ := h v hv
        exact ⟨j, stage, hj, (hpass.stage?_eq j).trans hstage, hgoing⟩

theorem vacated_after {s : Service} (ho : s.Orderly) (h : s.Vacated) (es : List Event) :
    (s.after es).Vacated :=
  (after_of_step (P := fun s => s.Orderly ∧ s.Vacated)
    (fun _ e h => ⟨orderly_step h.1 e, vacated_step h.1 h.2 e⟩) ⟨ho, h⟩ es).2

/-- A task that has finished has left the gate for good: it has no access and no place in the
line. -/
theorem Queued.not_knows_of_finished {s : Service} {es : List Event} (h : Queued s es)
    (hv : (s.after es).Vacated) {id : TaskId} {r : JobResult}
    (hid : (s.after es).stage? id = some (.finished r)) (hin : id ∈ s.admitted es) :
    ¬(s.after es).gate.Knows (.task id) := by
  rintro (hacc | hline)
  · obtain ⟨j, stage, hj, hstage, hgoing⟩ := hv _ hacc
    cases hj
    exact hgoing r (Option.some.inj (hstage.symm.trans hid))
  · obtain ⟨ids, hids, hasked⟩ := h.line
    rw [hids, List.mem_map] at hline
    obtain ⟨j, hj, heq⟩ := hline
    cases heq
    have hnodup : (s.asked es).Nodup := nodup_eraseDups _
    rw [hasked] at hnodup
    exact (List.nodup_append'.1 hnodup).2.2 hin hj

/-- When the task that was let in last has finished, the gate belongs to the first in the line. -/
theorem Queued.holder?_of_finished {s : Service} {es : List Event} (h : Queued s es)
    (hv : (s.after es).Vacated) {id : TaskId} {r : JobResult}
    (hid : (s.after es).stage? id = some (.finished r))
    (hlast : (s.admitted es).getLast? = some id) :
    (s.after es).gate.holder? = (s.after es).gate.line.head? := by
  refine Gate.holder?_of_no_access fun v => ?_
  by_contra hacc
  rw [Bool.not_eq_false] at hacc
  obtain ⟨j, stage, rfl, hstage, hgoing⟩ := hv v hacc
  cases hlast.symm.trans (h.last j hacc)
  exact hgoing r (Option.some.inj (hstage.symm.trans hid))

end Service

end Sparring
