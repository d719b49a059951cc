import Sparring.Proofs.Engine.Relay
import Sparring.Proofs.Uci.Journal
import Sparring.Uci.Fleet

/-!
# What a run does to one process

A run of a machine that has processes, seen from one of them, is a row of deeds: its *history*.
The process after the run is a new process after these deeds (`View.process_after`), and all that is
shown of it is shown by them. So it is with the service and its engine processes (`process_after`),
where whatever completion the service sees was delivered by the reader of some process
(`delivered_of_relayed`).
-/

namespace Sparring.Uci

/-! ## Views -/

/-- A machine as it is seen from one process. An event does some deeds to the process, or launches
it. -/
structure View (σ ε : Type) where
  step : σ → ε → σ
  process? : σ → Option Instance
  deeds : σ → ε → List Deed
  there : ∀ {s i}, process? s = some i → ∀ e, process? (step s e) = some (i.performs (deeds s e))
  absent : ∀ {s}, process? s = none → ∀ e, deeds s e = [] ∧
    (process? (step s e) = none ∨ ∃ model, process? (step s e) = some (Instance.new model))

namespace View

variable {σ ε : Type} (v : View σ ε) (s : σ)

/-- What a run does to the process. -/
def history (es : List ε) : List Deed := observe v.step v.deeds s es

/-- What an event shows of the process. -/
def showing {α : Type} (look : Instance → Deed → List α) (s : σ) (e : ε) : List α :=
  match v.process? s with
  | none => []
  | some i => observe Instance.perform look i (v.deeds s e)

/-- What a run shows of the process. -/
def shown {α : Type} (look : Instance → Deed → List α) (es : List ε) : List α :=
  observe v.step (v.showing look) s es

variable {s}

/-- A process that is not there has shown nothing, and one that is there is a new process after
its history. -/
theorem process_after (hs : v.process? s = none) (es : List ε) :
    match v.process? (es.foldl v.step s) with
    | none => v.history s es = [] ∧
        ∀ (α : Type) (look : Instance → Deed → List α), v.shown s look es = []
    | some i => ∃ model, i = (Instance.new model).performs (v.history s es) ∧
        ∀ (α : Type) (look : Instance → Deed → List α),
          v.shown s look es = observe Instance.perform look (Instance.new model) (v.history s es)
    := by
  -- A process appears once. From then on every step does to it what its history says.
  induction es using List.reverseRecOn with
  | nil =>
    rw [List.foldl_nil, hs]
    exact ⟨rfl, fun _ _ => rfl⟩
  | append_singleton es e ih =>
    have hhistory : v.history s (es ++ [e]) =
        v.history s es ++ v.deeds (es.foldl v.step s) e := observe_concat ..
    have hshow : ∀ (α : Type) (look : Instance → Deed → List α), v.shown s look (es ++ [e]) =
        v.shown s look es ++ v.showing look (es.foldl v.step s) e := fun _ _ => observe_concat ..
    rw [List.foldl_append, List.foldl_cons, List.foldl_nil, hhistory]
    cases hi : v.process? (es.foldl v.step s) with
    | some i =>
      rw [hi] at ih
      obtain ⟨model, rfl, hshown⟩ := ih
      rw [v.there hi]
      refine ⟨model, (Instance.performs_append ..).symm, ?_⟩
      intro α look
      rw [hshow, hshown, observe_append, showing, hi]
      rfl
    | none =>
      rw [hi] at ih
      obtain ⟨hnil, hshown⟩ := ih
      obtain ⟨hdeeds, h⟩ := v.absent hi e
      have hshown' : ∀ (α : Type) (look : Instance → Deed → List α),
          v.shown s look (es ++ [e]) = [] := by
        intro α look
        rw [hshow, hshown, showing, hi]
        rfl
      rw [hdeeds, hnil]
      rcases h with h | ⟨model, h⟩
      · rw [h]
        exact ⟨rfl, hshown'⟩
      · rw [h]
        exact ⟨model, rfl, hshown'⟩

variable {v}

theorem process_of_some (hs : v.process? s = none) {es : List ε} {i : Instance}
    (hi : v.process? (es.foldl v.step s) = some i) :
    ∃ model deeds, i = (Instance.new model).performs deeds ∧
      ∀ (α : Type) (look : Instance → Deed → List α),
        v.shown s look es = observe Instance.perform look (Instance.new model) deeds := by
  have h := v.process_after hs es
  rw [hi] at h
  obtain ⟨model, h⟩ := h
  exact ⟨model, _, h⟩

theorem mem_showing {α : Type} {look : Instance → Deed → List α} {s : σ} {e : ε} {a : α}
    (h : a ∈ v.showing look s e) : ∃ i xs d ys, v.process? s = some i ∧
      v.deeds s e = xs ++ d :: ys ∧ a ∈ look (i.performs xs) d := by
  unfold showing at h
  cases hi : v.process? s with
  | none =>
    rw [hi] at h
    cases h
  | some i =>
    rw [hi] at h
    obtain ⟨xs, d, ys, hdeeds, hd⟩ := mem_observe.1 h
    exact ⟨i, xs, d, ys, rfl, hdeeds, hd⟩

theorem showing_of_some {α : Type} (look : Instance → Deed → List α) {s : σ} {i : Instance}
    (hi : v.process? s = some i) (e : ε) :
    v.showing look s e = observe Instance.perform look i (v.deeds s e) := by
  rw [showing, hi]

theorem showing_of_none {α : Type} (look : Instance → Deed → List α) {s : σ}
    (hi : v.process? s = none) (e : ε) : v.showing look s e = [] := by
  rw [showing, hi]

theorem shown_of_none (hs : v.process? s = none) {es : List ε}
    (hi : v.process? (es.foldl v.step s) = none) {α : Type} (look : Instance → Deed → List α) :
    v.shown s look es = [] := by
  have h := v.process_after hs es
  rw [hi] at h
  exact h.2 α look

end View

/-! ## A step of the processes -/

/-- What an action does to its process. -/
def Action.deed : Action → Deed
  | .write line => .write line
  | .record n => .record n
  | .withdraw => .withdraw
  | .await _ => .takeAck

/-- What a call that goes on does to a process. -/
def OpenCall.deeds (c : OpenCall) (k : Nat) : List Deed :=
  match c.progress with
  | .acting process (a :: _) _ => if process = k then [a.deed] else []
  | .acting process [] (some _) =>
    if process = k ∧ Fleet.givesUp c.call then [.closeInput, .closeOutput] else []
  | _ => []

namespace Fleet

/-- What a step does to a process. -/
def deeds (f : Fleet) (k : Nat) : Event → List Deed
  | .launched .. => []
  | .proceed task =>
    match f.call? task with
    | none => []
    | some c => c.deeds k
  | .read process => if process = k then [.read] else []
  | .print process bytes => if process = k then [.print bytes] else []
  | .closeOutput process => if process = k then [.closeOutput] else []
  | .closeInput process => if process = k then [.closeInput] else []

theorem task_of_call? {f : Fleet} {task : TaskId} {c : OpenCall} (h : f.call? task = some c) :
    c.task = task := by
  simpa using List.find?_some h

theorem instances_modify (f : Fleet) (process k : Nat) (g : Instance → Instance) :
    (f.modify process g).instances[k]? =
      if process = k then (f.instances[k]?).map g else f.instances[k]? := by
  rw [modify, List.getElem?_modify]
  cases f.instances[k]? with
  | none => simp
  | some i => by_cases h : process = k <;> simp [h]

variable {f : Fleet} {k process : Nat} {i j : Instance}

/-- An action changes its process only, by its deed. -/
theorem act_instances (hj : f.instances[process]? = some j) (c : OpenCall) (a : Action)
    (rest : List Action) (failure : Option Causes) :
    ∃ g, g j = j.perform a.deed ∧
      (f.act c process j a rest failure).instances = (f.modify process g).instances := by
  have hsame : f.instances = (f.modify process id).instances := (List.modify_id process _).symm
  cases a with
  | write line =>
    simp only [act, Action.deed, Instance.perform]
    split
    · exact ⟨_, rfl, rfl⟩
    · exact ⟨id, rfl, hsame⟩
  | record n | withdraw => exact ⟨_, rfl, rfl⟩
  | await b =>
    simp only [act, Action.deed, Instance.perform]
    split
    next got acks hacks => exact ⟨_, by rw [hacks]; rfl, rfl⟩
    next hacks =>
      refine ⟨id, by rw [hacks]; cases j; cases hacks; rfl, ?_⟩
      split <;> exact hsame

theorem act_instance (hj : f.instances[process]? = some j) (hi : f.instances[k]? = some i)
    (c : OpenCall) (a : Action) (rest : List Action) (failure : Option Causes) :
    (f.act c process j a rest failure).instances[k]? =
      some (i.performs (if process = k then [a.deed] else [])) := by
  obtain ⟨g, hg, hact⟩ := act_instances hj c a rest failure
  rw [hact, instances_modify]
  split
  next hk =>
    subst hk
    cases hi.symm.trans hj
    rw [hi, Option.map_some, hg]
    rfl
  · exact hi

theorem finish_instance (hi : f.instances[k]? = some i) (c : OpenCall) (failure : Option Causes) :
    (f.finish c process failure).1.instances[k]? =
      some (i.performs
        (if process = k ∧ failure.isSome ∧ givesUp c.call then [.closeInput, .closeOutput]
          else [])) := by
  cases failure with
  | none => simpa [finish, close] using hi
  | some causes =>
    simp only [finish, close]
    by_cases hg : givesUp c.call
    · rw [if_pos hg, instances_modify, hi]
      by_cases hk : process = k
      · simp only [hk, hg]
        rfl
      · simp [hk]
    · simp [hg, hi]

theorem proceed_instance (hi : f.instances[k]? = some i) (c : OpenCall) :
    (f.proceed c).1.instances[k]? = some (i.performs (c.deeds k)) := by
  unfold proceed OpenCall.deeds
  split
  next hc => simp [hc, hi]
  next p failure hc =>
    rw [finish_instance hi]
    cases failure <;> simp [hc]
  next p a rest failure hc =>
    simp only [hc]
    split
    next hp =>
      have hne : p ≠ k := fun hk => by rw [hk, hi] at hp; cases hp
      rw [finish_instance hi]
      simp [hne]
    next j hj => exact act_instance hj hi c a rest failure

theorem launched_instance (hi : f.instances[k]? = some i) (c : OpenCall)
    (failure : Option Causes) : (f.launched c failure).1.instances[k]? = some i := by
  obtain ⟨hlt, hk⟩ := List.getElem?_eq_some_iff.1 hi
  unfold launched
  split
  · simp only
    split <;> simpa [advance, List.getElem?_append_left hlt] using hi
  · exact hi
  · exact hi

/-- A step does its deeds to a process that is there. -/
theorem step_instance (hi : f.instances[k]? = some i) (e : Event) :
    (f.step e).1.instances[k]? = some (i.performs (f.deeds k e)) := by
  cases e with
  | launched task failure =>
    simp only [step, deeds]
    split
    · exact hi
    · exact launched_instance hi _ failure
  | proceed task =>
    simp only [step, deeds]
    cases f.call? task with
    | none => exact hi
    | some c => exact proceed_instance hi c
  | read p =>
    simp only [step, deeds]
    split
    next hp =>
      have hne : p ≠ k := fun hk => by rw [hk, hi] at hp; cases hp
      simpa [hne] using hi
    next j hj =>
      rw [instances_modify, hi]
      by_cases hk : p = k
      · subst hk
        cases hi.symm.trans hj
        simp [Instance.performs, Instance.perform]
      · simp [hk]
  | print p bytes | closeOutput p | closeInput p =>
    simp only [step, deeds, instances_modify, hi]
    by_cases hk : p = k <;> simp [hk, Instance.performs, Instance.perform]

theorem finish_absent (hk : f.instances[k]? = none) (c : OpenCall) (process : Nat)
    (failure : Option Causes) : (f.finish c process failure).1.instances[k]? = none := by
  cases failure with
  | none => exact hk
  | some causes =>
    simp only [finish, close]
    split
    · simp [instances_modify, hk]
    · exact hk

theorem proceed_absent (hk : f.instances[k]? = none) (c : OpenCall) :
    (f.proceed c).1.instances[k]? = none := by
  unfold proceed
  split
  · exact hk
  · exact finish_absent hk c _ _
  next p a rest failure hc =>
    split
    · exact finish_absent hk c _ _
    next j hj =>
      obtain ⟨g, -, hact⟩ := act_instances hj c a rest failure
      rw [hact, instances_modify, hk]
      simp

/-- A process that was not there has just been launched. -/
theorem step_absent (hk : f.instances[k]? = none) (e : Event) :
    (f.step e).1.instances[k]? = none ∨
      ∃ model, (f.step e).1.instances[k]? = some (Instance.new model) := by
  cases e with
  | launched task failure =>
    simp only [step]
    split
    · exact Or.inl hk
    next c hc =>
      unfold launched
      split
      · have hlaunch : (f.instances ++ [Instance.new c.call.model])[k]? = none ∨
            (f.instances ++ [Instance.new c.call.model])[k]? =
              some (Instance.new c.call.model) := by
          rw [List.getElem?_append_right (List.getElem?_eq_none_iff.1 hk)]
          cases k - f.instances.length <;> simp
        simp only
        split <;> exact hlaunch.imp_right fun h => ⟨_, h⟩
      · exact Or.inl hk
      · exact Or.inl hk
  | proceed task =>
    simp only [step]
    split
    · exact Or.inl hk
    · exact Or.inl (proceed_absent hk _)
  | read p =>
    simp only [step]
    split
    · exact Or.inl hk
    · exact Or.inl (by simp [instances_modify, hk])
  | print p bytes | closeOutput p | closeInput p =>
    exact Or.inl (by simp [step, instances_modify, hk])

theorem step_deliver {e : Event} {c : Completion} (h : (f.step e).2 = some (.deliver c)) :
    ∃ k i, f.instances[k]? = some i ∧ e = .read k ∧ i.read.2 = some c := by
  have hfinish : ∀ (d : OpenCall) p failure, (f.finish d p failure).2 ≠ some (.deliver c) := by
    intro d p failure
    cases failure <;> simp [finish]
  cases e with
  | launched task failure =>
    simp only [step] at h
    split at h
    · cases h
    · unfold launched at h
      split at h
      · simp only at h
        split at h <;> cases h
      · cases h
      · cases h
  | proceed task =>
    simp only [step] at h
    split at h
    · cases h
    · unfold proceed at h
      split at h
      · cases h
      · exact absurd h (hfinish _ _ _)
      · split at h
        · exact absurd h (hfinish _ _ _)
        · cases h
  | read k =>
    simp only [step] at h
    split at h
    · cases h
    next i hi =>
      obtain ⟨c', hc', heq⟩ := Option.map_eq_some_iff.1 h
      cases heq
      exact ⟨k, i, hi, rfl, hc'⟩
  | print | closeOutput | closeInput => cases h

end Fleet

/-! ## A step of the system -/

section System

variable (s : System Fleet) (k : Nat)

/-- An event of a system with engine processes. -/
abbrev Occurrence := System.Event Fleet.Event

/-- What a step does to a process. -/
def deedsOf : Occurrence → List Deed
  | .engine e =>
    if s.service.aborted || (s.engines.instances[k]?).isNone then [] else s.engines.deeds k e
  | _ => []

variable {s} in
theorem engineStep_of_going (ha : s.service.aborted = false) (e : Fleet.Event) :
    s.engineStep (.engine e) = s.engines.step e := by
  rw [System.engineStep, if_neg (by simp [ha])]
  rfl

variable {s} in
theorem engineStep_of_aborted (ha : s.service.aborted = true) (e : Fleet.Event) :
    s.engineStep (.engine e) = (s.engines, none) := if_pos ha

/-- What the service makes of a step leaves the processes alone. -/
theorem instances_step (e : Occurrence) :
    (s.step e).engines.instances = (s.engineStep e).1.instances := by
  have htake : ∀ (f : Fleet) (effect : Option Service.Effect),
      (System.takeUp f effect).instances = f.instances := by
    rintro f (_ | _ | _) <;> rfl
  rw [System.step_eq]
  split
  · rfl
  · exact htake _ _

variable {s k}

theorem instance_step {i : Instance} (hi : s.engines.instances[k]? = some i) (e : Occurrence) :
    (s.step e).engines.instances[k]? = some (i.performs (deedsOf s k e)) := by
  rw [instances_step]
  cases e with
  | start | run | hangUp => exact hi
  | engine e =>
    cases ha : s.service.aborted with
    | true =>
      rw [engineStep_of_aborted ha]
      simpa [deedsOf, ha] using hi
    | false =>
      rw [engineStep_of_going ha, Fleet.step_instance hi]
      simp [deedsOf, ha, hi]

theorem absent_step (hk : s.engines.instances[k]? = none) (e : Occurrence) :
    deedsOf s k e = [] ∧ ((s.step e).engines.instances[k]? = none ∨
      ∃ model, (s.step e).engines.instances[k]? = some (Instance.new model)) := by
  rw [instances_step]
  cases e with
  | start | run | hangUp => exact ⟨rfl, Or.inl hk⟩
  | engine e =>
    refine ⟨by simp [deedsOf, hk], ?_⟩
    cases ha : s.service.aborted with
    | true =>
      rw [engineStep_of_aborted ha]
      exact Or.inl hk
    | false =>
      rw [engineStep_of_going ha]
      exact Fleet.step_absent hk e

/-- A completion that the service sees is delivered by the reader of a process. -/
theorem relay_completed {e : Occurrence} {c : Completion}
    (h : s.relay e = some (.completed c)) :
    ∃ k i, s.engines.instances[k]? = some i ∧ deedsOf s k e = [.read] ∧
      i.delivered .read = [c] := by
  cases e with
  | start | run | hangUp => cases h
  | engine e =>
    obtain ⟨ev, hev, hseen⟩ := Option.map_eq_some_iff.1 h
    cases ev with
    | returned id r => cases hseen
    | deliver c' =>
      cases hseen
      cases ha : s.service.aborted with
      | true =>
        rw [engineStep_of_aborted ha] at hev
        cases hev
      | false =>
        rw [engineStep_of_going ha] at hev
        obtain ⟨k, i, hi, rfl, hread⟩ := Fleet.step_deliver hev
        refine ⟨k, i, hi, by simp [deedsOf, ha, hi, Fleet.deeds], ?_⟩
        simp [Instance.delivered, hread]

end System

/-! ## Runs -/

section Run

variable (s : System Fleet) (k : Nat)

/-- What a run does to a process. -/
def history (es : List Occurrence) : List Deed := observe System.step (deedsOf · k) s es

/-- What a step shows of a process. -/
def showing {α : Type} (look : Instance → Deed → List α) (s : System Fleet) (e : Occurrence) :
    List α :=
  match s.engines.instances[k]? with
  | none => []
  | some i => observe Instance.perform look i (deedsOf s k e)

/-- What a run shows of a process. -/
def shown {α : Type} (look : Instance → Deed → List α) (es : List Occurrence) : List α :=
  observe System.step (showing k look) s es

theorem shown_concat {α : Type} (look : Instance → Deed → List α) (es : List Occurrence)
    (e : Occurrence) :
    shown s k look (es ++ [e]) = shown s k look es ++ showing k look (s.after es) e :=
  observe_concat ..

/-- The journal of a process. -/
def journalOf (es : List Occurrence) : List Mark := shown s k Instance.marks es

theorem journalOf_append (xs ys : List Occurrence) :
    journalOf s k (xs ++ ys) = journalOf s k xs ++ journalOf (s.after xs) k ys :=
  observe_append ..

theorem journalOf_cons (e : Occurrence) (es : List Occurrence) :
    journalOf s k (e :: es) = showing k Instance.marks s e ++ journalOf (s.step e) k es := rfl

/-- What a process has printed. -/
def printoutOf (es : List Occurrence) : List UInt8 := shown s k Instance.printed es

/-- What the reader of a process has delivered. -/
def deliveriesOf (es : List Occurrence) : List Completion := shown s k Instance.delivered es

theorem deliveriesOf_append (xs ys : List Occurrence) :
    deliveriesOf s k (xs ++ ys) = deliveriesOf s k xs ++ deliveriesOf (s.after xs) k ys :=
  observe_append ..

variable {s k}

/-- A completion that the service sees has been delivered by the reader of a process. -/
theorem delivered_of_relayed {es : List Occurrence} {c : Completion}
    (h : .completed c ∈ s.relayed es) : ∃ k, c ∈ deliveriesOf s k es := by
  obtain ⟨before, e, later, rfl, he⟩ := mem_observe.1 h
  obtain ⟨k, i, hi, hdeeds, hread⟩ := relay_completed (Option.mem_toList.1 he)
  refine ⟨k, mem_observe.2 ⟨before, e, later, rfl, ?_⟩⟩
  simp only [showing]
  rw [hi, hdeeds]
  simp [observe, hread]

end Run

section Run

variable (settings : EngineSettings) (table : Table) (policy : FailurePolicy)

/-- The service with its processes as it is seen from one of them. -/
def view (k : Nat) : View (System Fleet) Occurrence where
  step := System.step
  process? s := s.engines.instances[k]?
  deeds s := deedsOf s k
  there hi e := instance_step hi e
  absent hk e := absent_step hk e

/-- The service before any engine has been launched. -/
def start : System Fleet := ⟨.new settings table policy, .empty⟩

/-- A process that is not there has shown nothing, and one that is there is a new process after
its history. -/
theorem process_after (k : Nat) (es : List Occurrence) :
    match ((start settings table policy).after es).engines.instances[k]? with
    | none => history (start settings table policy) k es = [] ∧
        ∀ (α : Type) (look : Instance → Deed → List α),
          shown (start settings table policy) k look es = []
    | some i => ∃ model,
        i = (Instance.new model).performs (history (start settings table policy) k es) ∧
        ∀ (α : Type) (look : Instance → Deed → List α),
          shown (start settings table policy) k look es =
            observe Instance.perform look (Instance.new model)
              (history (start settings table policy) k es) :=
  (view k).process_after rfl es

variable {settings table policy} {k : Nat} {es : List Occurrence} {i : Instance}

theorem process_of_some
    (hi : ((start settings table policy).after es).engines.instances[k]? = some i) :
    ∃ model deeds, i = (Instance.new model).performs deeds ∧
      ∀ (α : Type) (look : Instance → Deed → List α),
        shown (start settings table policy) k look es =
          observe Instance.perform look (Instance.new model) deeds := by
  exact View.process_of_some (v := view k) rfl hi

theorem current_of_journal
    (hi : ((start settings table policy).after es).engines.instances[k]? = some i) :
    i.current = (journalOf (start settings table policy) k es).foldl Mark.next none := by
  obtain ⟨model, deeds, rfl, hshown⟩ := process_of_some hi
  rw [journalOf, hshown]
  exact Instance.current_performs ..

/-- The journal determines what has been delivered and what is still to be. -/
theorem deliveries_of_journal
    (hi : ((start settings table policy).after es).engines.instances[k]? = some i) :
    deliveriesOf (start settings table policy) k es ++ i.pending =
      completions none (journalOf (start settings table policy) k es) := by
  obtain ⟨model, deeds, rfl, hshown⟩ := process_of_some hi
  rw [journalOf, deliveriesOf, hshown, hshown]
  exact Instance.delivered_append_pending ..

/-- Whatever has been delivered is what the journal tells. -/
theorem completion_of_delivered {c : Completion}
    (h : c ∈ deliveriesOf (start settings table policy) k es) :
    c ∈ completions none (journalOf (start settings table policy) k es) := by
  cases hi : ((start settings table policy).after es).engines.instances[k]? with
  | none =>
    have hnone := process_after settings table policy k es
    rw [hi] at hnone
    rw [deliveriesOf, hnone.2] at h
    cases h
  | some i =>
    rw [← deliveries_of_journal hi]
    exact List.mem_append_left _ h

/-- What has been heard of a process is what it has printed, from the start and in order. -/
theorem heard_of_journal
    (hi : ((start settings table policy).after es).engines.instances[k]? = some i) :
    heard (journalOf (start settings table policy) k es) <+:
      replies (lines (printoutOf (start settings table policy) k es) i.outputOpen) := by
  obtain ⟨model, deeds, rfl, hshown⟩ := process_of_some hi
  rw [journalOf, printoutOf, hshown, hshown]
  exact Instance.heard_prefix ..

end Run

end Sparring.Uci
