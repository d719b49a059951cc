import Mathlib.Data.List.Induction
import Sparring.Proofs.Gate.Line
import Sparring.Proofs.Service.Turns

/-!
# One task at a time

Whatever happens, a task that is inside the gate has access, and the gate gives access to one
visitor only. So no two tasks are inside at the same time (`inside_unique`), and a task that
finishes leaves an empty room behind. The handoff stays sound all the while.
-/

namespace Sparring

namespace Service

/-! ## Stages -/

/-- The stage of a task. -/
def stage? (s : Service) (id : TaskId) : Option Stage := (s.tasks[id]?).map (·.stage)

theorem stage?_of_task {s : Service} {id : TaskId} {t : Task} (ht : s.tasks[id]? = some t) :
    s.stage? id = some t.stage := by
  simp [stage?, ht]

theorem result?_eq_some {s : Service} {id : TaskId} {r : JobResult} :
    s.result? id = some r ↔ s.stage? id = some (.finished r) := by
  unfold result? stage?
  cases s.tasks[id]? with
  | none => simp
  | some t =>
    obtain ⟨job, stage⟩ := t
    cases stage <;> simp

section Views

variable (s : Service) (id j : TaskId) (job : Job) (turn : Turn)

theorem stage?_arrive :
    ({ s with tasks := s.tasks ++ [⟨job, .waiting⟩] } : Service).stage? j =
      if j = s.tasks.length then some .waiting else s.stage? j := by
  unfold stage?
  by_cases hj : j < s.tasks.length
  · simp [List.getElem?_append_left hj, Nat.ne_of_lt hj]
  · by_cases he : j = s.tasks.length
    · subst he
      simp
    · have hle : s.tasks.length ≤ j := Nat.le_of_not_lt hj
      have hlt : s.tasks.length + 1 ≤ j := Nat.lt_of_le_of_ne hle (Ne.symm he)
      have hnone : (s.tasks ++ [(⟨job, .waiting⟩ : Task)])[j]? = none :=
        List.getElem?_eq_none (by simpa using hlt)
      rw [if_neg he, hnone, List.getElem?_eq_none hle]

theorem stage?_next : s.stage? s.tasks.length = none := by
  simp [stage?]

@[simp] theorem handoff_move : (move id turn).1.handoff = turn.service.handoff := by
  by_cases hf : turn.Fatal
  · rw [move_of_fatal hf]
  · rw [move_of_not_fatal hf]

@[simp] theorem registry_move : (move id turn).1.registry = turn.service.registry := by
  by_cases hf : turn.Fatal
  · rw [move_of_fatal hf]
  · rw [move_of_not_fatal hf]

theorem stage?_move : (move id turn).1.stage? j =
    if j = id ∧ ¬turn.Fatal then (turn.service.stage? j).map fun _ => turn.stage
    else turn.service.stage? j := by
  by_cases hf : turn.Fatal
  · rw [move_of_fatal hf, if_neg fun h => h.2 hf]
    rfl
  · rw [move_of_not_fatal hf]
    unfold stage?
    rw [List.getElem?_modify]
    cases turn.service.tasks[j]? with
    | none => simp
    | some t => by_cases h : id = j <;> simp [h, hf, eq_comm]

theorem gate_move : (move id turn).1.gate =
    if turn.Fatal then turn.service.gate else gateAfter turn.service.gate id turn.stage := by
  by_cases hf : turn.Fatal
  · rw [move_of_fatal hf, if_pos hf]
  · rw [move_of_not_fatal hf, if_neg hf]

theorem aborted_move : (move id turn).1.aborted =
    (decide turn.Fatal || turn.service.aborted) := by
  by_cases hf : turn.Fatal
  · rw [move_of_fatal hf]
    simp [hf]
  · rw [move_of_not_fatal hf]
    simp [hf]

theorem not_fatal_to (stage : Stage) : ¬(Turn.to stage s).Fatal := by
  simp [Turn.to, Turn.Fatal]

theorem gateAfter_of_inside {stage : Stage} (h : stage.isInside = true) (gate : Gate Visitor) :
    gateAfter gate id stage = gate := by
  cases stage <;> first | rfl | cases h

end Views

/-! ## Passages keep to the handoff and the registry -/

section Passage

variable {s : Service} {job : Job} {stage : Stage} {r : Option CallResult} {turn : Turn}

theorem Passage.tasks_eq (h : Passage s job stage r turn) : turn.service.tasks = s.tasks := by
  cases h <;> rfl

theorem Passage.gate_eq (h : Passage s job stage r turn) : turn.service.gate = s.gate := by
  cases h <;> rfl

theorem Passage.policy_eq (h : Passage s job stage r turn) :
    turn.service.policy = s.policy := by
  cases h <;> rfl

theorem Passage.aborted_eq (h : Passage s job stage r turn) :
    turn.service.aborted = s.aborted := by
  cases h <;> rfl

/-- Only a task inside the gate moves on. -/
theorem Passage.inside (h : Passage s job stage r turn) : stage.isInside = true := by
  cases h <;> first | assumption | rfl

theorem Passage.stage?_eq (h : Passage s job stage r turn) (j : TaskId) :
    turn.service.stage? j = s.stage? j := by
  unfold stage?
  rw [h.tasks_eq]

end Passage

/-- Where a stage after a step comes from: it was there, it is plain, or the task has had a turn. -/
theorem stage?_step {s : Service} {e : Event} {id : TaskId} {stage : Stage}
    (h : (s.step e).1.stage? id = some stage) :
    s.stage? id = some stage ∨ stage.Plain ∨
      s.aborted = false ∧ ∃ job old r turn, e = turnEvent id r ∧ s.stage? id = some old ∧
        Passage s job old r turn ∧ turn.stage = stage := by
  cases ha : s.aborted with
  | true =>
    rw [step_of_aborted ha] at h
    exact Or.inl h
  | false =>
    have hc := change_step ha e
    generalize s.step e = out at hc h
    cases hc with
    | idle | completed | queued => exact Or.inl h
    | arrived job =>
      rw [stage?_arrive] at h
      split at h
      · cases h
        exact Or.inr (Or.inl trivial)
      · exact Or.inl h
    | @entered j t ht hw hp =>
      rw [stage?_move] at h
      split at h
      · obtain ⟨_, -, rfl⟩ := Option.map_eq_some_iff.1 h
        exact Or.inr (Or.inl (s.plain_firstStage t.job))
      · exact Or.inl h
    | @passed _ j t r turn he ht hpass =>
      rw [stage?_move] at h
      split at h
      next hj =>
        obtain ⟨_, -, hturn⟩ := Option.map_eq_some_iff.1 h
        rw [hj.1]
        exact Or.inr (Or.inr ⟨rfl, t.job, t.stage, r, turn, he, stage?_of_task ht, hpass, hturn⟩)
      · rw [hpass.stage?_eq] at h
        exact Or.inl h

/-! ## Access for those inside -/

/-- Every task inside the gate has access. -/
def Orderly (s : Service) : Prop :=
  ∀ id stage, s.stage? id = some stage → stage.isInside = true →
    s.gate.hasAccess (.task id) = true

theorem orderly_new (settings : EngineSettings) (table : Table) (policy : FailurePolicy) :
    (new settings table policy).Orderly := by
  intro id stage h
  simp [new, stage?] at h

theorem Orderly.inside_unique {s : Service} (h : s.Orderly) {i j : TaskId} {a b : Stage}
    (hi : s.stage? i = some a) (ha : a.isInside = true) (hj : s.stage? j = some b)
    (hb : b.isInside = true) : i = j := by
  have := Gate.hasAccess_unique (h i a hi ha) (h j b hj hb)
  exact Visitor.task.inj this

/-- Whether no task but one is inside the gate. -/
def Alone (s : Service) (id : TaskId) : Prop :=
  ∀ j stage, j ≠ id → s.stage? j = some stage → stage.isInside = false

theorem Orderly.alone {s : Service} (h : s.Orderly) {id : TaskId} {stage : Stage}
    (hid : s.stage? id = some stage) (hin : stage.isInside = true) : s.Alone id := by
  intro j stage' hne hj
  by_contra hin'
  exact hne (h.inside_unique hj (by simpa using hin') hid hin)

/-- A task that is let in is alone. -/
theorem Orderly.alone_of_poll {s : Service} (h : s.Orderly) {id : TaskId}
    (hp : (s.gate.poll (.task id)).1 = true) : s.Alone id := by
  intro j stage hne hj
  by_contra hin
  exact hne (Visitor.task.inj (Gate.eq_of_poll hp (h j stage hj (by simpa using hin)))).symm

theorem Passage.alone {s : Service} {job : Job} {id : TaskId} {stage : Stage}
    {r : Option CallResult} {turn : Turn} (hpass : Passage s job stage r turn)
    (h : s.Orderly) (hid : s.stage? id = some stage) : turn.service.Alone id := by
  intro j stage' hne hj
  rw [hpass.stage?_eq] at hj
  exact h.alone hid hpass.inside j stage' hne hj

/-- When the task with access moves on to a stage, or finishes and leaves, all is in order. -/
theorem orderly_move {turn : Turn} {id : TaskId}
    (hid : turn.service.gate.hasAccess (.task id) = true) (halone : turn.service.Alone id)
    (hfatal : turn.Fatal → turn.service.Orderly) : (move id turn).1.Orderly := by
  by_cases hf : turn.Fatal
  · rw [move_of_fatal hf]
    exact hfatal hf
  · intro j stage hj hin
    rw [gate_move, if_neg hf]
    rw [stage?_move] at hj
    by_cases he : j = id
    · subst he
      rw [if_pos ⟨rfl, hf⟩] at hj
      obtain ⟨_, -, rfl⟩ := Option.map_eq_some_iff.1 hj
      rw [gateAfter_of_inside _ hin]
      exact hid
    · rw [if_neg fun h => he h.1] at hj
      rw [halone j stage he hj] at hin
      cases hin

theorem Change.orderly {s : Service} {e : Event} {out : Service × Option Effect}
    (hc : Change s e out) (h : s.Orderly) : out.1.Orderly := by
  cases hc with
  | idle _ => exact h
  | arrived job =>
    intro id stage hid hin
    rw [stage?_arrive] at hid
    split at hid
    · cases hid
      cases hin
    · exact h id stage hid hin
  | completed c => exact h
  | queued ht hw hp =>
    intro j stage hj hin
    exact (Gate.hasAccess_poll_of_refused hp).trans (h j stage hj hin)
  | entered ht hw hp =>
    exact orderly_move (Gate.hasAccess_poll hp) (h.alone_of_poll hp)
      fun hf => absurd hf (not_fatal_to _ _)
  | @passed e id t r turn he ht hpass =>
    have hid := h id t.stage (stage?_of_task ht) hpass.inside
    refine orderly_move (by rwa [hpass.gate_eq]) (hpass.alone h (stage?_of_task ht)) fun hf => ?_
    intro j stage hj hin
    rw [hpass.stage?_eq] at hj
    rw [hpass.gate_eq]
    exact h j stage hj hin

/-- No step lets a second task in. -/
theorem orderly_step {s : Service} (h : s.Orderly) (e : Event) : (s.step e).1.Orderly := by
  cases ha : s.aborted with
  | true => rwa [step_of_aborted ha]
  | false => exact (change_step ha e).orderly h

/-! ## Who searches -/

/-- Whether a task has a search. -/
def Searching (s : Service) (n : SearchId) : Prop :=
  ∃ id stage, s.stage? id = some stage ∧ stage.search? = some n

/-- While a task is inside, only its own search can be going on. -/
theorem Orderly.searching_iff {s : Service} (h : s.Orderly) {id : TaskId} {stage : Stage}
    (hid : s.stage? id = some stage) (hin : stage.isInside = true) (n : SearchId) :
    s.Searching n ↔ stage.search? = some n := by
  refine ⟨?_, fun hn => ⟨id, stage, hid, hn⟩⟩
  rintro ⟨j, stage', hj, hn⟩
  cases h.inside_unique hj (Stage.isInside_of_search? hn) hid hin
  rwa [← Option.some.inj (hj.symm.trans hid)]

/-- While a task without a search is alone, nothing is searched for. -/
theorem Alone.not_searching {s : Service} {id : TaskId} {stage : Stage} (h : s.Alone id)
    (hid : s.stage? id = some stage) (hno : stage.search? = none) (n : SearchId) :
    ¬s.Searching n := by
  rintro ⟨j, stage', hj, hn⟩
  by_cases he : j = id
  · subst he
    rw [Option.some.inj (hj.symm.trans hid), hno] at hn
    cases hn
  · have hout := h j stage' he hj
    rw [Stage.isInside_of_search? hn] at hout
    cases hout

/-- After a task that is alone has moved on to a stage, only its own search can be going on. -/
theorem Alone.searching_move {turn : Turn} {id : TaskId} {stage : Stage}
    (halone : turn.service.Alone id) (hid : turn.service.stage? id = some stage)
    (hf : ¬turn.Fatal) (n : SearchId) :
    (move id turn).1.Searching n ↔ turn.stage.search? = some n := by
  have hmoved : (move id turn).1.stage? id = some turn.stage := by
    rw [stage?_move, if_pos ⟨rfl, hf⟩, hid]
    rfl
  refine ⟨?_, fun hn => ⟨id, turn.stage, hmoved, hn⟩⟩
  rintro ⟨j, stage', hj, hn⟩
  by_cases he : j = id
  · subst he
    rwa [← Option.some.inj (hj.symm.trans hmoved)]
  · rw [stage?_move, if_neg fun h => he h.1] at hj
    have hout := halone j stage' he hj
    rw [Stage.isInside_of_search? hn] at hout
    cases hout

/-! ## The handoff -/

theorem Passage.sound {s : Service} {job : Job} {stage : Stage} {r : Option CallResult}
    {turn : Turn} (hpass : Passage s job stage r turn) (h : s.handoff.Sound) :
    turn.service.handoff.Sound := by
  cases hpass with
  | plain | refused | submitted => exact h
  | armed ha => exact h.arm
  | @withdrawn p n causes => exact (h.disarm n).leave n
  | @crashed p n message => exact h.leave n
  | @told p n r hb => exact h.leave n

theorem sound_step {s : Service} (h : s.handoff.Sound) (e : Event) :
    (s.step e).1.handoff.Sound := by
  cases ha : s.aborted with
  | true => rwa [step_of_aborted ha]
  | false =>
    have hc := change_step ha e
    generalize s.step e = out at hc
    cases hc with
    | idle | arrived | queued => exact h
    | completed c => exact h.fulfill c
    | entered =>
      rw [handoff_move]
      exact h
    | passed he ht hpass =>
      rw [handoff_move]
      exact hpass.sound h

/-! ## Runs -/

/-- The service after a row of events. -/
def after (s : Service) (es : List Event) : Service := (s.steps es).1

@[simp] theorem after_nil (s : Service) : s.after [] = s := rfl

theorem after_cons (s : Service) (e : Event) (es : List Event) :
    s.after (e :: es) = (s.step e).1.after es := by
  unfold after
  rw [steps]
  rcases s.step e with ⟨s', _ | _ | _⟩ <;> rfl

theorem after_append (s : Service) (xs ys : List Event) :
    s.after (xs ++ ys) = (s.after xs).after ys := by
  induction xs generalizing s with
  | nil => rfl
  | cons x xs ih => rw [List.cons_append, after_cons, after_cons, ih]

theorem after_concat (s : Service) (es : List Event) (e : Event) :
    s.after (es ++ [e]) = ((s.after es).step e).1 := by
  rw [after_append, after_cons, after_nil]

/-- What a step keeps, a run keeps. -/
theorem after_of_step {P : Service → Prop} (hstep : ∀ s e, P s → P (s.step e).1) {s : Service}
    (h : P s) (es : List Event) : P (s.after es) := by
  induction es generalizing s with
  | nil => exact h
  | cons e es ih =>
    rw [after_cons]
    exact ih (hstep s e h)

theorem aborted_after {s : Service} (h : s.aborted = true) (es : List Event) :
    (s.after es).aborted = true :=
  after_of_step (P := fun s => s.aborted = true) (fun _ _ h => by rwa [step_of_aborted h]) h es

theorem orderly_after {s : Service} (h : s.Orderly) (es : List Event) : (s.after es).Orderly :=
  after_of_step (P := Orderly) (fun _ e h => orderly_step h e) h es

theorem sound_after {s : Service} (h : s.handoff.Sound) (es : List Event) :
    (s.after es).handoff.Sound :=
  after_of_step (P := fun s => s.handoff.Sound) (fun _ e h => sound_step h e) h es

/-! ## What stays as it is -/

/-- The job of a task. -/
def job? (s : Service) (id : TaskId) : Option Job := (s.tasks[id]?).map (·.job)

theorem job?_of_task {s : Service} {id : TaskId} {t : Task} (ht : s.tasks[id]? = some t) :
    s.job? id = some t.job := by
  simp [job?, ht]

/-- What a service is set up with. -/
def terms (s : Service) : EngineSettings × Table × FailurePolicy := (s.settings, s.table, s.policy)

theorem Passage.terms_eq {s : Service} {job : Job} {stage : Stage} {r : Option CallResult}
    {turn : Turn} (h : Passage s job stage r turn) : turn.service.terms = s.terms := by
  cases h <;> rfl

theorem terms_move (id : TaskId) (turn : Turn) : (move id turn).1.terms = turn.service.terms := by
  by_cases hf : turn.Fatal
  · rw [move_of_fatal hf]
    rfl
  · rw [move_of_not_fatal hf]
    rfl

theorem terms_step (s : Service) (e : Event) : (s.step e).1.terms = s.terms := by
  cases ha : s.aborted with
  | true => rw [step_of_aborted ha]
  | false =>
    have hc := change_step ha e
    generalize s.step e = out at hc
    cases hc with
    | idle | arrived | completed | queued => rfl
    | entered => exact terms_move _ _
    | passed he ht hpass => exact (terms_move _ _).trans hpass.terms_eq

/-- A run keeps what the service was set up with. -/
theorem terms_after (s : Service) (es : List Event) : (s.after es).terms = s.terms :=
  after_of_step (P := fun s' => s'.terms = s.terms)
    (fun s' e h => (terms_step s' e).trans h) rfl es

/-- The jobs of the tasks, in the order of their arrival. -/
def jobs (s : Service) : List Job := s.tasks.map (·.job)

theorem job?_eq (s : Service) (id : TaskId) : s.job? id = s.jobs[id]? := List.getElem?_map.symm

theorem jobs_modify (f : Task → Task) (hf : ∀ t, (f t).job = t.job) (tasks : List Task)
    (id : TaskId) :
    (tasks.modify id f).map (·.job) = tasks.map (·.job) := by
  refine List.ext_getElem? fun j => ?_
  rw [List.getElem?_map, List.getElem?_map, List.getElem?_modify]
  cases tasks[j]? with
  | none => rfl
  | some t => by_cases h : id = j <;> simp [h, hf]

theorem jobs_move (id : TaskId) (turn : Turn) : (move id turn).1.jobs = turn.service.jobs := by
  by_cases hf : turn.Fatal
  · rw [move_of_fatal hf]
    rfl
  · rw [move_of_not_fatal hf]
    exact jobs_modify (fun t => { t with stage := turn.stage }) (fun _ => rfl) _ id

/-- Tasks keep their jobs, and only those that arrive bring new ones. -/
theorem jobs_step (s : Service) (e : Event) :
    (s.step e).1.jobs = s.jobs ∨ ∃ job, e = .start job ∧ (s.step e).1.jobs = s.jobs ++ [job] := by
  cases ha : s.aborted with
  | true =>
    rw [step_of_aborted ha]
    exact Or.inl rfl
  | false =>
    have hc := change_step ha e
    generalize s.step e = out at hc
    cases hc with
    | idle | completed | queued => exact Or.inl rfl
    | arrived job => exact Or.inr ⟨job, rfl, List.map_append⟩
    | entered => exact Or.inl (jobs_move _ _)
    | passed he ht hpass =>
      exact Or.inl ((jobs_move _ _).trans (congrArg (List.map _) hpass.tasks_eq))

theorem job?_after {s : Service} {id : TaskId} {job : Job} (h : s.job? id = some job)
    (es : List Event) : (s.after es).job? id = some job := by
  refine after_of_step (P := fun s => s.job? id = some job) (fun s e h => ?_) h es
  rw [job?_eq] at h ⊢
  rcases s.jobs_step e with hsame | ⟨job', -, hmore⟩
  · rwa [hsame]
  · rw [hmore, List.getElem?_append_left (List.getElem?_eq_some_iff.1 h).1, h]

/-- A job was there at the start, or a task has arrived with it. -/
theorem start_mem_of_job {s : Service} {es : List Event} {job : Job}
    (h : job ∈ (s.after es).jobs) : job ∈ s.jobs ∨ .start job ∈ es := by
  induction es generalizing s with
  | nil => exact Or.inl h
  | cons e es ih =>
    rw [after_cons] at h
    rcases ih h with hmem | hmem
    · rcases s.jobs_step e with hsame | ⟨job', rfl, hmore⟩
      · exact Or.inl (hsame ▸ hmem)
      · rw [hmore, List.mem_append, List.mem_singleton] at hmem
        rcases hmem with hmem | rfl
        · exact Or.inl hmem
        · exact Or.inr List.mem_cons_self
    · exact Or.inr (List.mem_cons_of_mem e hmem)

end Service

end Sparring
