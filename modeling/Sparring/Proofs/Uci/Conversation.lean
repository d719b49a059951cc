import Mathlib.Data.List.Pairwise
import Sparring.Proofs.Uci.Submission

/-!
# Conversations with engine processes

The processes need no service: whoever has a task can make calls to them. A *conversation* is a run
of the processes in which calls are made at any time and for anything, and may be given up before
they return. It is *conducted* if a task makes one call at a time and an engine is not called while a
call for its model is under way (`Conducted`).

Then the calls under way stay out of each other's way (`Apart`): each goes through its own actions,
on a process of its model, and no other call acts on that process.
-/

namespace Sparring.Uci

/-- What can happen in a conversation. -/
inductive Incident where
  /-- A task makes a call. -/
  | call (task : TaskId) (call : EngineCall)
  /-- A task gives up its call, wherever it stands. -/
  | giveUp (task : TaskId)
  | step (e : Fleet.Event)

namespace Fleet

/-- The processes after an incident. -/
def meet (f : Fleet) : Incident → Fleet
  | .call task call => f.begin task call
  | .giveUp task => f.giveUp task
  | .step e => (f.step e).1

/-- The processes after a conversation. -/
def after (f : Fleet) (xs : List Incident) : Fleet := xs.foldl meet f

@[simp] theorem after_nil (f : Fleet) : f.after [] = f := rfl

theorem after_append (f : Fleet) (xs ys : List Incident) :
    f.after (xs ++ ys) = (f.after xs).after ys := List.foldl_append

theorem after_concat (f : Fleet) (xs : List Incident) (x : Incident) :
    f.after (xs ++ [x]) = (f.after xs).meet x := by
  rw [after_append]
  rfl

/-! ## Calls that are given up -/

/-- What a call that is given up does to a process. -/
def deedsOfGiveUp (k : Nat) (f : Fleet) (task : TaskId) : List Deed :=
  match f.call? task with
  | none => []
  | some c =>
    match c.progress with
    | .launching => []
    | .acting process _ _ =>
      if process = k ∧ givesUp c.call then [.closeInput, .closeOutput] else []

section GiveUp

variable {f : Fleet} {k : Nat} {task : TaskId}

theorem calls_giveUp : (f.giveUp task).calls = f.calls.filter (·.task ≠ task) := by
  unfold giveUp
  cases hc : f.call? task with
  | none =>
    refine (List.filter_eq_self.2 fun c hmem => ?_).symm
    simpa using List.find?_eq_none.1 hc c hmem
  | some c =>
    obtain rfl := task_of_call? hc
    simp only
    split
    · rfl
    · simp only [finish]
      split <;> rfl

theorem giveUp_instance {i : Instance} (hi : f.instances[k]? = some i) :
    (f.giveUp task).instances[k]? = some (i.performs (deedsOfGiveUp k f task)) := by
  unfold giveUp deedsOfGiveUp
  cases f.call? task with
  | none => exact hi
  | some c =>
    cases hp : c.progress with
    | launching => simpa [hp, close] using hi
    | acting process remaining failure => simpa [hp] using finish_instance hi c (some [])

theorem giveUp_absent (hk : f.instances[k]? = none) : (f.giveUp task).instances[k]? = none := by
  unfold giveUp
  cases f.call? task with
  | none => exact hk
  | some c =>
    simp only
    split
    · exact hk
    · exact finish_absent hk c _ _

end GiveUp

/-! ## Conversations with one process -/

/-- What an incident does to a process. -/
def deedsAt (k : Nat) (f : Fleet) : Incident → List Deed
  | .call .. => []
  | .giveUp task => if (f.instances[k]?).isNone then [] else deedsOfGiveUp k f task
  | .step e => if (f.instances[k]?).isNone then [] else f.deeds k e

/-- The processes as they are seen from one of them. -/
def view (k : Nat) : View Fleet Incident where
  step := meet
  process? f := f.instances[k]?
  deeds := deedsAt k
  there {f i} hi x := by
    cases x with
    | call task call => exact hi
    | giveUp task => simpa [meet, deedsAt, hi] using giveUp_instance hi
    | step e => simpa [meet, deedsAt, hi] using step_instance hi e
  absent {f} hk x := by
    cases x with
    | call task call => exact ⟨rfl, Or.inl hk⟩
    | giveUp task => exact ⟨by simp [deedsAt, hk], Or.inl (giveUp_absent hk)⟩
    | step e => exact ⟨by simp [deedsAt, hk], step_absent hk e⟩

section View

variable (k : Nat) (xs : List Incident)

/-- The journal of a process in a conversation. -/
def journalOf : List Mark := (view k).shown empty Instance.marks xs

/-- What a process prints in a conversation. -/
def printoutOf : List UInt8 := (view k).shown empty Instance.printed xs

/-- The lines that the reader of a process takes in a conversation. -/
def takenOf : List (List UInt8) := (view k).shown empty Instance.taken xs

/-- What the reader of a process delivers in a conversation. -/
def deliveriesOf : List Completion := (view k).shown empty Instance.delivered xs

variable {k xs}

theorem journalOf_concat (x : Incident) :
    journalOf k (xs ++ [x]) = journalOf k xs ++ (view k).showing Instance.marks (empty.after xs) x :=
  observe_concat ..

theorem journalOf_append (ys : List Incident) : journalOf k (xs ++ ys) =
    journalOf k xs ++ (view k).shown (empty.after xs) Instance.marks ys :=
  observe_append ..

/-- What holds of a new process after any deeds, and of all that they show, holds of a process in a
conversation. -/
theorem of_deeds
    {P : Instance → List Mark → List UInt8 → List (List UInt8) → List Completion → Prop}
    (h : ∀ model deeds, P ((Instance.new model).performs deeds)
      ((Instance.new model).journal deeds) ((Instance.new model).printout deeds)
      ((Instance.new model).takenLines deeds) ((Instance.new model).deliveries deeds))
    {i : Instance} (hi : (empty.after xs).instances[k]? = some i) :
    P i (journalOf k xs) (printoutOf k xs) (takenOf k xs) (deliveriesOf k xs) := by
  obtain ⟨model, deeds, rfl, hshown⟩ := View.process_of_some (v := view k) (s := empty) rfl hi
  rw [journalOf, printoutOf, takenOf, deliveriesOf, hshown, hshown, hshown, hshown]
  exact h model deeds

theorem journalOf_of_none (hk : (empty.after xs).instances[k]? = none) : journalOf k xs = [] :=
  View.shown_of_none (v := view k) (s := empty) rfl hk Instance.marks

end View

/-! ## Conducted conversations -/

/-- Whether a task may make a call: it has no call under way and neither has the engine, which is
there unless it is to be created. -/
structure Admits (f : Fleet) (task : TaskId) (call : EngineCall) : Prop where
  free : ∀ c ∈ f.calls, c.task ≠ task ∧ c.call.model ≠ call.model
  there : call = .create call.model ∨ (f.newest? call.model).isSome

instance (f : Fleet) (task : TaskId) (call : EngineCall) : Decidable (f.Admits task call) :=
  decidable_of_iff _ ⟨fun h => ⟨h.1, h.2⟩, fun h => And.intro h.free h.there⟩

/-- Whether every incident of a conversation is as it should be when it happens. -/
def Throughout (P : Fleet → Incident → Prop) (f : Fleet) : List Incident → Prop
  | [] => True
  | x :: xs => P f x ∧ Throughout P (f.meet x) xs

section Throughout

variable {P : Fleet → Incident → Prop}

instance decidableThroughout [∀ f x, Decidable (P f x)] :
    (f : Fleet) → (xs : List Incident) → Decidable (Throughout P f xs)
  | _, [] => .isTrue trivial
  | f, x :: xs =>
    have := decidableThroughout (f.meet x) xs
    inferInstanceAs (Decidable (P f x ∧ Throughout P (f.meet x) xs))

theorem throughout_append {f : Fleet} {xs ys : List Incident} :
    Throughout P f (xs ++ ys) ↔ Throughout P f xs ∧ Throughout P (f.after xs) ys := by
  induction xs generalizing f with
  | nil => exact (iff_of_eq (true_and _)).symm
  | cons x xs ih => exact (and_congr_right fun _ => ih).trans and_assoc.symm

end Throughout

/-- Whether an incident is no call or may be made. -/
def Allows (f : Fleet) : Incident → Prop
  | .call task call => f.Admits task call
  | .giveUp _ | .step _ => True

instance (f : Fleet) : (x : Incident) → Decidable (f.Allows x)
  | .call task call => inferInstanceAs (Decidable (f.Admits task call))
  | .giveUp _ | .step _ => .isTrue trivial

/-- Whether every call of a conversation may be made. -/
abbrev Conducted (f : Fleet) (xs : List Incident) : Prop := Throughout Allows f xs

/-! ## How calls go on -/

/-- How a call that is under way can come further in a step. -/
inductive Onward (f f' : Fleet) (c : OpenCall) : Progress → Prop
  /-- Its process has been launched. -/
  | launched {as : List Action} : c.progress = .launching → actions c.call = .ok as →
      f'.instances = f.instances ++ [Instance.new c.call.model] →
      Onward f f' c (.acting f.instances.length as none)
  | refused {causes : Causes} : c.progress = .launching → actions c.call = .error causes →
      Onward f f' c (.acting f.instances.length [] (some causes))
  /-- It has done an action. -/
  | done {k : Nat} {a : Action} {rest : List Action} {failure : Option Causes} :
      c.progress = .acting k (a :: rest) failure → Onward f f' c (.acting k rest failure)
  /-- A write has failed. -/
  | broken {k : Nat} {line : String} {rest : List Action} {failure : Option Causes}
      (causes : Causes) : c.progress = .acting k (.write line :: rest) failure →
      Onward f f' c (.acting k (afterFailure c.call) (some causes))
  /-- It has taken an acknowledgement that it does not wait for. -/
  | skipped : Onward f f' c c.progress
  /-- It has waited for a reader that has ended. -/
  | abandoned {k : Nat} {b : Ack} {rest : List Action} {failure : Option Causes}
      (causes : Causes) : c.progress = .acting k (.await b :: rest) failure →
      Onward f f' c (.acting k [] (some causes))

/-- What a step can do to the calls under way. -/
inductive Moved (f : Fleet) (e : Event) (f' : Fleet) : Prop
  | same : f'.calls = f.calls → Moved f e f'
  /-- A call comes further. -/
  | onward {c : OpenCall} {progress : Progress} :
      f.call? c.task = some c → (∀ j rest failure, c.progress = .acting j rest failure →
        e = .proceed c.task) → Onward f f' c progress →
      f'.calls = (f.advance c.task progress).calls → Moved f e f'
  /-- A call returns. -/
  | closed {c : OpenCall} : f.call? c.task = some c →
      (∀ j rest failure, c.progress = .acting j rest failure → e = .proceed c.task) →
      f'.calls = (f.close c.task).calls → Moved f e f'

section Moved

variable {f : Fleet} {c : OpenCall}

theorem moved_act (hc : f.call? c.task = some c) {k : Nat} {a : Action} {rest : List Action}
    {failure : Option Causes} (hp : c.progress = .acting k (a :: rest) failure) (i : Instance) :
    Moved f (.proceed c.task) (f.act c k i a rest failure) := by
  have he : ∀ j rest failure, c.progress = .acting j rest failure →
      Event.proceed c.task = .proceed c.task := fun _ _ _ _ => rfl
  cases a with
  | write line =>
    simp only [act]
    split
    · exact .onward hc he (.done hp) rfl
    · exact .onward hc he (.broken _ hp) rfl
  | record n | withdraw => exact .onward hc he (.done hp) rfl
  | await b =>
    simp only [act]
    split
    next got acks hacks =>
      split
      · exact .onward hc he (.done hp) rfl
      · exact .onward hc he .skipped (by rw [hp]; rfl)
    next hacks =>
      split
      · exact .onward hc he (.abandoned _ hp) rfl
      · exact .same rfl

theorem moved_finish (hc : f.call? c.task = some c) (k : Nat) (failure : Option Causes) :
    Moved f (.proceed c.task) (f.finish c k failure).1 := by
  refine .closed hc (fun _ _ _ _ => rfl) ?_
  cases failure with
  | none => rfl
  | some causes =>
    simp only [finish]
    split <;> rfl

theorem moved_step (f : Fleet) (e : Event) : Moved f e (f.step e).1 := by
  cases e with
  | launched task failure =>
    simp only [step]
    split
    · exact .same rfl
    next c hc =>
      obtain rfl := task_of_call? hc
      unfold launched
      split
      next hp =>
        have he : ∀ j rest failure', c.progress = .acting j rest failure' →
            Event.launched c.task failure = .proceed c.task := fun _ _ _ h => by
          cases hp.symm.trans h
        simp only
        split
        next as has => exact .onward hc he (.launched hp has rfl) rfl
        next causes hcauses => exact .onward hc he (.refused hp hcauses) rfl
      next hp =>
        exact .closed hc (fun _ _ _ h => by cases hp.symm.trans h) rfl
      · exact .same rfl
  | proceed task =>
    simp only [step]
    split
    · exact .same rfl
    next c hc =>
      obtain rfl := task_of_call? hc
      unfold proceed
      split
      · exact .same rfl
      · exact moved_finish hc _ _
      next hp =>
        split
        · exact moved_finish hc _ _
        · exact moved_act hc hp _
  | read process =>
    simp only [step]
    split <;> exact .same rfl
  | print | closeOutput | closeInput => exact .same rfl

theorem model_of_meet {f : Fleet} {k : Nat} {i : Instance} (hi : f.instances[k]? = some i)
    (x : Incident) : ∃ i', (f.meet x).instances[k]? = some i' ∧ i'.model = i.model :=
  ⟨_, (view k).there hi x, Instance.model_performs _ _⟩

theorem step_of_acting (hc : f.call? c.task = some c) {k : Nat} {a : Action} {rest : List Action}
    {failure : Option Causes} (hp : c.progress = .acting k (a :: rest) failure) {i : Instance}
    (hi : f.instances[k]? = some i) :
    f.step (.proceed c.task) = (f.act c k i a rest failure, none) := by
  simp only [step, hc, proceed, hp, hi]

end Moved

theorem showing_call (k : Nat) {α : Type} (look : Instance → Deed → List α) (f : Fleet)
    (task : TaskId) (call : EngineCall) : (view k).showing look f (.call task call) = [] := by
  cases hi : f.instances[k]? with
  | none => exact View.showing_of_none look (v := view k) hi _
  | some i => exact View.showing_of_some look (v := view k) hi _

theorem showing_giveUp (k : Nat) (f : Fleet) (task : TaskId) :
    (view k).showing Instance.marks f (.giveUp task) = [] := by
  cases hi : f.instances[k]? with
  | none => exact View.showing_of_none _ (v := view k) hi _
  | some i =>
    rw [View.showing_of_some _ (v := view k) hi]
    simp only [view, deedsAt, hi, deedsOfGiveUp, Option.isNone_some, Bool.false_eq_true, if_false]
    split
    · rfl
    · split
      · rfl
      · split <;> rfl

/-- What is shown of a process when a call acts on it is shown by the action. -/
theorem deeds_of_acting (hc : f.call? c.task = some c) {k : Nat} {a : Action} {rest : List Action}
    {failure : Option Causes} (hp : c.progress = .acting k (a :: rest) failure) {i : Instance}
    (hi : f.instances[k]? = some i) :
    (view k).deeds f (.step (.proceed c.task)) = [a.deed] := by
  simp [view, deedsAt, hi, deeds, hc, OpenCall.deeds, hp]

/-- A mark of a call is made by the action that the call does. -/
theorem acting_of_showing {k : Nat} {x : Incident} {a : Mark}
    (h : a ∈ (view k).showing Instance.marks f x) (ha : a.OfCall) :
    ∃ c, f.call? c.task = some c ∧ x = .step (.proceed c.task) ∧
      ∃ i y rest failure, f.instances[k]? = some i ∧
        c.progress = .acting k (y :: rest) failure ∧ i.Makes y a ∧
        (view k).showing Instance.marks f x = [a] := by
  obtain ⟨i, xs, d, ys, hi, hdeeds, hd⟩ := View.mem_showing h
  cases x with
  | call task call => simp [showing_call] at h
  | giveUp task => simp [showing_giveUp] at h
  | step e =>
    have hat : (view k).deeds f (.step e) = f.deeds k e := by
      have hi' : f.instances[k]? = some i := hi
      simp [view, deedsAt, hi']
    rw [hat] at hdeeds
    have hmem : d ∈ f.deeds k e := by simp [hdeeds]
    obtain ⟨hone, c, hc, rfl, y, rest, failure, hp, rfl⟩ :=
      calling_of_deeds hmem (ofCall_of_mem_marks hd ha)
    have hshow : (view k).showing Instance.marks f (.step (.proceed c.task)) = i.markOf y := by
      rw [View.showing_of_some _ hi, hat, hone]
      exact (List.append_nil _).trans (i.marks_deed y)
    rw [hshow] at h ⊢
    obtain ⟨hmark, hmakes⟩ := Instance.makes_of_mem h
    exact ⟨c, hc, rfl, i, y, rest, failure, hi, hp, hmakes, hmark⟩

/-! ## Calls out of each other's way -/

/-- Whether the calls under way are of different tasks and for different models, and each is on
course, on a process of its model. -/
structure Apart (f : Fleet) : Prop where
  distinct : f.calls.Pairwise fun c d => c.task ≠ d.task ∧ c.call.model ≠ d.call.model
  course : ∀ c ∈ f.calls, OnCourse c.call c.progress
  placed : ∀ c ∈ f.calls, ∀ k rest failure, c.progress = .acting k rest failure →
    ∃ i, f.instances[k]? = some i ∧ i.model = c.call.model

namespace Apart

variable {f : Fleet} {c d : OpenCall}

theorem eq_or_distinct (h : f.Apart) (hc : c ∈ f.calls) (hd : d ∈ f.calls) :
    c = d ∨ c.task ≠ d.task ∧ c.call.model ≠ d.call.model := by
  by_cases hsame : c = d
  · exact Or.inl hsame
  · have : Std.Symm fun c d : OpenCall => c.task ≠ d.task ∧ c.call.model ≠ d.call.model :=
      ⟨fun _ _ h => ⟨h.1.symm, h.2.symm⟩⟩
    exact Or.inr (h.distinct.forall hc hd hsame)

theorem eq_of_task (h : f.Apart) (hc : c ∈ f.calls) (hd : d ∈ f.calls) (ht : c.task = d.task) :
    c = d :=
  (h.eq_or_distinct hc hd).resolve_right fun hne => hne.1 ht

theorem eq_of_model (h : f.Apart) (hc : c ∈ f.calls) (hd : d ∈ f.calls)
    (hm : c.call.model = d.call.model) : c = d :=
  (h.eq_or_distinct hc hd).resolve_right fun hne => hne.2 hm

/-- Only one call acts on a process. -/
theorem eq_of_process (h : f.Apart) (hc : c ∈ f.calls) (hd : d ∈ f.calls) {k : Nat}
    {as bs : List Action} {failure failure' : Option Causes}
    (hcp : c.progress = .acting k as failure) (hdp : d.progress = .acting k bs failure') :
    c = d := by
  obtain ⟨i, hi, hcm⟩ := h.placed c hc k as failure hcp
  obtain ⟨j, hj, hdm⟩ := h.placed d hd k bs failure' hdp
  cases hi.symm.trans hj
  exact h.eq_of_model hc hd (hcm.symm.trans hdm)

theorem call?_eq (h : f.Apart) (hc : c ∈ f.calls) : f.call? c.task = some c := by
  cases hfind : f.call? c.task with
  | none => simpa using List.find?_eq_none.1 hfind c hc
  | some d => rw [h.eq_of_task (List.mem_of_find?_eq_some hfind) hc (task_of_call? hfind)]

/-- A call that comes further is the only one that does. -/
theorem mem_advance (h : f.Apart) (hc : c ∈ f.calls) {progress : Progress} :
    d ∈ (f.advance c.task progress).calls ↔
      d = { c with progress } ∨ d ∈ f.calls ∧ d.task ≠ c.task := by
  simp only [advance, List.mem_map]
  constructor
  · rintro ⟨d', hd', rfl⟩
    split
    next ht => exact Or.inl (by rw [h.eq_of_task hd' hc ht])
    next ht => exact Or.inr ⟨hd', ht⟩
  · rintro (rfl | ⟨hd, ht⟩)
    · exact ⟨c, hc, if_pos rfl⟩
    · exact ⟨d, hd, if_neg ht⟩

/-- What is under way after a step was under way before it, or has come further. -/
theorem mem_step (h : f.Apart) {e : Event} (hd : d ∈ (f.step e).1.calls) :
    d ∈ f.calls ∨ ∃ c ∈ f.calls, ∃ progress, d = { c with progress } ∧
      Onward f (f.step e).1 c progress ∧
      ∀ j rest failure, c.progress = .acting j rest failure → e = .proceed c.task := by
  have hmoved := moved_step f e
  generalize (f.step e).1 = f' at hmoved hd
  cases hmoved with
  | same hsame => exact Or.inl (hsame ▸ hd)
  | onward hc he hon hcalls =>
    have hmem := List.mem_of_find?_eq_some hc
    rw [hcalls, h.mem_advance hmem] at hd
    rcases hd with rfl | hd
    · exact Or.inr ⟨_, hmem, _, rfl, hon, he⟩
    · exact Or.inl hd.1
  | closed hc _ hcalls =>
    rw [hcalls] at hd
    exact Or.inl (List.mem_of_mem_filter hd)

theorem mem_step_of_ne (hc : c ∈ f.calls) {j : Nat} {rest : List Action}
    {failure : Option Causes} (hp : c.progress = .acting j rest failure) {e : Event}
    (he : e ≠ .proceed c.task) (h : f.Apart) : c ∈ (f.step e).1.calls := by
  have hmoved := moved_step f e
  generalize (f.step e).1 = f' at hmoved
  cases hmoved with
  | same hsame => exact hsame ▸ hc
  | @onward d _ hd hed _ hcalls =>
    have hmem := List.mem_of_find?_eq_some hd
    rw [hcalls, h.mem_advance hmem]
    refine Or.inr ⟨hc, fun ht => ?_⟩
    cases h.eq_of_task hc hmem ht
    exact he (hed j rest failure hp)
  | @closed d hd hed hcalls =>
    rw [hcalls]
    refine List.mem_filter.2 ⟨hc, decide_eq_true fun ht => ?_⟩
    cases h.eq_of_task hc (List.mem_of_find?_eq_some hd) ht
    exact he (hed j rest failure hp)

end Apart

/-- A call that comes further stays on course. -/
theorem Onward.course {f f' : Fleet} {c : OpenCall} {progress : Progress}
    (h : Onward f f' c progress) (ho : OnCourse c.call c.progress) :
    OnCourse c.call progress := by
  cases h with
  | launched _ has => exact .acting [] has
  | refused | abandoned => exact .spent _
  | done hp => exact (hp ▸ ho).next
  | broken => exact .broken _
  | skipped => exact ho

theorem apart_empty : empty.Apart := ⟨.nil, fun _ h => (by cases h), fun _ h => by cases h⟩

/-- A step leaves the calls out of each other's way. -/
theorem apart_step {f : Fleet} (h : f.Apart) (e : Event) : (f.step e).1.Apart where
  distinct := by
    have hmoved := moved_step f e
    generalize (f.step e).1 = f' at hmoved
    cases hmoved with
    | same hsame => exact hsame ▸ h.distinct
    | onward _ _ _ hcalls =>
      rw [hcalls]
      refine List.pairwise_map.2 (h.distinct.imp fun hne => ?_)
      split <;> split <;> exact hne
    | closed _ _ hcalls =>
      rw [hcalls]
      exact h.distinct.filter _
  course d hd := by
    rcases h.mem_step hd with hd | ⟨c, hc, progress, rfl, hon, -⟩
    · exact h.course d hd
    · exact hon.course (h.course c hc)
  placed d hd k rest failure hp := by
    have hkeep : ∀ c ∈ f.calls, ∀ as failure', c.progress = .acting k as failure' →
        ∃ i, (f.step e).1.instances[k]? = some i ∧ i.model = c.call.model := by
      intro c hc as failure' hcp
      obtain ⟨i, hi, hmodel⟩ := h.placed c hc k as failure' hcp
      obtain ⟨i', hi', hsame⟩ := model_of_meet hi (.step e)
      exact ⟨i', hi', hsame.trans hmodel⟩
    rcases h.mem_step hd with hd | ⟨c, hc, progress, rfl, hon, -⟩
    · exact hkeep d hd rest failure hp
    -- A call comes to another process only when it has launched it.
    · generalize (f.step e).1 = f' at hon hkeep ⊢
      cases hon with
      | launched _ _ hinstances =>
        cases hp
        rw [hinstances]
        exact ⟨_, List.getElem?_concat_length, rfl⟩
      | refused hl hcauses =>
        obtain ⟨model, hcreate⟩ := (hl ▸ h.course c hc).create_of_launching
        rw [hcreate] at hcauses
        cases hcauses
      | done hcp | broken _ hcp | abandoned _ hcp =>
        cases hp
        exact hkeep c hc _ _ hcp
      | skipped => exact hkeep c hc _ _ hp

theorem apart_begin {f : Fleet} (h : f.Apart) {task : TaskId} {call : EngineCall}
    (ha : f.Admits task call) : (f.begin task call).Apart where
  distinct := by
    refine List.pairwise_append.2 ⟨h.distinct, List.pairwise_singleton _ _, fun c hc d hd => ?_⟩
    rw [List.mem_singleton.1 hd]
    exact ha.free c hc
  course c hc := by
    rcases List.mem_append.1 hc with hc | hc
    · exact h.course c hc
    · rw [List.mem_singleton.1 hc]
      exact f.onCourse_opening call
  placed c hc k rest failure hp := by
    rcases List.mem_append.1 hc with hc | hc
    · exact h.placed c hc k rest failure hp
    · rw [List.mem_singleton.1 hc] at hp ⊢
      rcases ha.there with hcreate | hnewest
      · rw [hcreate] at hp
        cases hp
      · obtain ⟨process, hprocess⟩ := Option.isSome_iff_exists.1 hnewest
        have hk : k = process := by
          simp only at hp
          cases call with
          | create => cases hp
          | setOption | newGame | setPosition | go =>
            simp only [opening, hprocess, Option.getD_some] at hp
            split at hp <;> (cases hp; rfl)
        exact hk ▸ newest?_eq_some hprocess

/-- Those that are not given up stay out of each other's way. -/
theorem apart_giveUp {f : Fleet} (h : f.Apart) (task : TaskId) : (f.giveUp task).Apart where
  distinct := by
    rw [calls_giveUp]
    exact h.distinct.filter _
  course c hc := by
    rw [calls_giveUp] at hc
    exact h.course c (List.mem_of_mem_filter hc)
  placed c hc k rest failure hp := by
    rw [calls_giveUp] at hc
    obtain ⟨i, hi, hmodel⟩ := h.placed c (List.mem_of_mem_filter hc) k rest failure hp
    obtain ⟨i', hi', hsame⟩ := model_of_meet hi (.giveUp task)
    exact ⟨i', hi', hsame.trans hmodel⟩

/-- In a conducted conversation the calls stay out of each other's way. -/
theorem apart_after {f : Fleet} (h : f.Apart) {xs : List Incident} (hx : f.Conducted xs) :
    (f.after xs).Apart := by
  induction xs generalizing f with
  | nil => exact h
  | cons x xs ih =>
    cases x with
    | call task call => exact ih (apart_begin h hx.1) hx.2
    | giveUp task => exact ih (apart_giveUp h task) hx.2
    | step e => exact ih (apart_step h e) hx.2

/-! ## Parts of a conversation -/

/-- A call goes on some times. -/
def proceeds (task : TaskId) (times : Nat) : List Incident :=
  List.replicate times (.step (.proceed task))

/-- A process prints, and its reader takes some steps. -/
def prints (k : Nat) (text : String) (times : Nat) : List Incident :=
  .step (.print k (text.toList.map fun c => c.toNat.toUInt8)) ::
    List.replicate times (.step (.read k))

/-- An engine is created, and acknowledges. -/
def creates (task : TaskId) (k : Nat) (model : String) : List Incident :=
  [.call task (.create model), .step (.launched task none)] ++ proceeds task 1 ++
    prints k "uciok\n" 1 ++ proceeds task 2

/-- Two engines are created, one after the other. -/
example : empty.Conducted (creates 0 0 "elo-206" ++ creates 1 1 "elo-999") ∧
    (empty.after (creates 0 0 "elo-206" ++ creates 1 1 "elo-999")).instances.map (·.written) =
      [["uci\n"], ["uci\n"]] := by
  decide +kernel

end Fleet

end Sparring.Uci
