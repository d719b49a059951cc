import Sparring.Proofs.Uci.Conversation

/-!
# The searches that a process has been given

A call that submits a search has it recorded, writes the line that starts it, and takes it back if
the line cannot be written. In a conducted conversation no other call of its model comes in between.
So the searches in the journal of a process are among those submitted and in their order
(`keeping_after`), and one that could not be submitted has been taken back when the call returns
(`submitting_after`).
-/

namespace Sparring.Uci

/-- The search that a mark records. -/
def Mark.number? : Mark → Option SearchId
  | .recorded n => some n
  | _ => none

/-- The searches that have been recorded. -/
def numbers (marks : List Mark) : List SearchId := marks.filterMap Mark.number?

theorem numbers_append (xs ys : List Mark) : numbers (xs ++ ys) = numbers xs ++ numbers ys :=
  List.filterMap_append

/-- What a call has still to do. -/
def Progress.remaining : Progress → List Action
  | launching => []
  | acting _ rest _ => rest

namespace Fleet

/-! ## Searches that are recorded -/

/-- The search that an incident submits to the engine of a model. -/
def submitted? (model : String) : Incident → Option SearchId
  | .call _ (.go m n _) => if m = model then some n else none
  | _ => none

/-- The searches that are submitted to the engine of a model, in the order of the calls. -/
def submitted (model : String) (xs : List Incident) : List SearchId :=
  xs.filterMap (submitted? model)

/-- A call that comes further gets no search to record. -/
theorem Onward.record_mem {f f' : Fleet} {c : OpenCall} {progress : Progress} {n : SearchId}
    (h : Onward f f' c progress) (ho : OnCourse c.call c.progress)
    (hn : .record n ∈ progress.remaining) : .record n ∈ c.progress.remaining := by
  cases h with
  | launched hl has =>
    obtain ⟨model, hcreate⟩ := (hl ▸ ho).create_of_launching
    rw [hcreate] at has
    cases has
    simp [Progress.remaining] at hn
  | refused | abandoned => cases hn
  | done hp =>
    rw [hp]
    exact List.mem_cons_of_mem _ hn
  | broken causes hp =>
    cases hcall : c.call <;> simp [hcall, afterFailure, Progress.remaining] at hn
  | skipped => exact hn

theorem opening_record {f : Fleet} {call : EngineCall} {n : SearchId}
    (h : .record n ∈ (f.opening call).remaining) : ∃ model limits, call = .go model n limits := by
  have ho := f.onCourse_opening call
  generalize f.opening call = progress at h ho
  cases ho with
  | launching | spent => cases h
  | acting done hactions => exact go_of_mem_actions hactions (List.mem_append_right _ h)
  | broken causes => cases call <;> simp [afterFailure, Progress.remaining] at h

section Numbers

variable {xs : List Incident} {k : Nat} {model : String}

theorem submitted_concat (x : Incident) :
    submitted model (xs ++ [x]) = submitted model xs ++ (submitted? model x).toList := by
  rw [submitted, List.filterMap_append]
  cases h : submitted? model x <;> simp [submitted, h]

theorem recorded_of_showing {f : Fleet} {x : Incident} {n : SearchId}
    (h : n ∈ numbers ((view k).showing Instance.marks f x)) :
    ∃ c i rest failure, f.call? c.task = some c ∧ x = .step (.proceed c.task) ∧
      f.instances[k]? = some i ∧ c.progress = .acting k (.record n :: rest) failure ∧
      (view k).showing Instance.marks f x = [.recorded n] := by
  obtain ⟨a, ha, hn⟩ := List.mem_filterMap.1 h
  cases a with
  | recorded m =>
    cases hn
    obtain ⟨c, hc, hx, i, y, rest, failure, hi, hp, hmakes, hmark⟩ := acting_of_showing ha trivial
    cases hmakes
    exact ⟨c, i, rest, failure, hc, hx, hi, hp, hmark⟩
  | withdrawn | wrote | heard | took | looked => cases hn

/-- How the journal of a process and the calls for its model stand to the searches submitted. -/
structure Keeping (f : Fleet) (model : String) (log : List Mark) (given : List SearchId) : Prop where
  recorded : (numbers log).Sublist given
  /-- A search that is still to be recorded comes after those that have been. -/
  coming : ∀ c ∈ f.calls, c.call.model = model → ∀ n, .record n ∈ c.progress.remaining →
    (numbers log ++ [n]).Sublist given

theorem Keeping.begin {f : Fleet} {log : List Mark} {given : List SearchId}
    (h : Keeping f model log given) (task : TaskId) (call : EngineCall) :
    Keeping (f.begin task call) model log
      (given ++ (submitted? model (.call task call)).toList) := by
  refine ⟨h.recorded.trans (List.sublist_append_left _ _), fun c hc hm n hn => ?_⟩
  rcases List.mem_append.1 hc with hc | hc
  · exact (h.coming c hc hm n hn).trans (List.sublist_append_left _ _)
  · rw [List.mem_singleton.1 hc] at hm hn
    obtain ⟨m, limits, rfl⟩ := opening_record hn
    rw [show submitted? model (.call task (.go m n limits)) = some n from if_pos hm]
    exact h.recorded.append (List.Sublist.refl _)

theorem Keeping.giveUp {f : Fleet} {log : List Mark} {given : List SearchId}
    (h : Keeping f model log given) (task : TaskId) : Keeping (f.giveUp task) model log given := by
  refine ⟨h.recorded, fun c hc => h.coming c ?_⟩
  rw [calls_giveUp] at hc
  exact List.mem_of_mem_filter hc

theorem Keeping.record {f : Fleet} {log : List Mark} {given : List SearchId}
    (h : Keeping f model log given) (ha : f.Apart) {c : OpenCall} (hc : f.call? c.task = some c)
    {n : SearchId} {rest : List Action} {failure : Option Causes}
    (hp : c.progress = .acting k (.record n :: rest) failure) {i : Instance}
    (hi : f.instances[k]? = some i) (hmodel : i.model = model) :
    Keeping (f.step (.proceed c.task)).1 model (log ++ [.recorded n]) given := by
  have hmem := List.mem_of_find?_eq_some hc
  obtain ⟨j, hj, hcall⟩ := ha.placed c hmem k _ failure hp
  cases hi.symm.trans hj
  have hm : c.call.model = model := hcall.symm.trans hmodel
  have hsub := h.coming c hmem hm n (by rw [hp]; exact List.mem_cons_self)
  refine ⟨by rw [numbers_append]; exact hsub, fun d hd hdm m hdn => ?_⟩
  rw [step_of_acting hc hp hi] at hd
  have hadvance : d ∈ (f.advance c.task (.acting k rest failure)).calls := hd
  rcases (ha.mem_advance hmem).1 hadvance with rfl | ⟨hd, ht⟩
  · exact absurd hdn ((hp ▸ ha.course c hmem).record_not_mem m)
  · exact absurd (congrArg OpenCall.task (ha.eq_of_model hd hmem (hdm.trans hm.symm))) ht

theorem Keeping.quiet {f : Fleet} {log more : List Mark} {given : List SearchId}
    (h : Keeping f model log given) (ha : f.Apart) (e : Event) (hmore : numbers more = []) :
    Keeping (f.step e).1 model (log ++ more) given := by
  have hsame : numbers (log ++ more) = numbers log := by
    rw [numbers_append, hmore, List.append_nil]
  refine ⟨hsame ▸ h.recorded, fun d hd hm n hn => ?_⟩
  rw [hsame]
  rcases ha.mem_step hd with hd | ⟨c, hc, progress, rfl, hon, -⟩
  · exact h.coming d hd hm n hn
  · exact h.coming c hc hm n (hon.record_mem (ha.course c hc) hn)

/-- Of the searches that are submitted each is recorded once at most, in the order of the calls. -/
theorem keeping_after (hx : empty.Conducted xs)
    (hmodel : ∀ i, (empty.after xs).instances[k]? = some i → i.model = model) :
    Keeping (empty.after xs) model (journalOf k xs) (submitted model xs) := by
  induction xs using List.reverseRecOn with
  | nil => exact ⟨List.nil_sublist _, fun c hc => by cases hc⟩
  | append_singleton xs x ih =>
    obtain ⟨hxs, hlast⟩ := throughout_append.1 hx
    rw [after_concat] at hmodel
    have h := ih hxs fun i hi => by
      obtain ⟨i', hi', hsame⟩ := model_of_meet hi x
      exact hsame ▸ hmodel i' hi'
    rw [after_concat, journalOf_concat, submitted_concat]
    cases x with
    | call task call =>
      rw [showing_call, List.append_nil]
      exact h.begin task call
    | giveUp task =>
      rw [showing_giveUp, List.append_nil, show submitted? model (.giveUp task) = none from rfl,
        Option.toList_none, List.append_nil]
      exact h.giveUp task
    -- A step either records no search here, or is the call that records one.
    | step e =>
      rw [show submitted? model (.step e) = none from rfl, Option.toList_none, List.append_nil]
      by_cases hnone : numbers ((view k).showing Instance.marks (empty.after xs) (.step e)) = []
      · exact h.quiet (apart_after apart_empty hxs) e hnone
      · obtain ⟨n, hn⟩ := List.exists_mem_of_ne_nil _ hnone
        obtain ⟨c, i, rest, failure, hc, he, hi, hp, hmark⟩ := recorded_of_showing hn
        cases he
        obtain ⟨i', hi', hsame⟩ := model_of_meet hi (.step (.proceed c.task))
        rw [hmark]
        exact h.record (apart_after apart_empty hxs) hc hp hi (hsame ▸ hmodel i' hi')

end Numbers

/-! ## Searches that are taken back -/

/-- Whether a search was the last to be recorded and has been taken back since. -/
def TakenBack (log : List Mark) (n : SearchId) : Prop :=
  ∃ before later, log = before ++ .withdrawn :: later ∧ (numbers before).getLast? = some n ∧
    numbers later = []

/-- How the journal of a process stands to a call that submits a search to it. -/
structure Submitting (k : Nat) (log : List Mark) (c : OpenCall) : Prop where
  /-- Once the search has been recorded it is the last that has. -/
  recorded : ∀ model n limits rest failure, c.call = .go model n limits →
    c.progress = .acting k rest failure → .record n ∉ rest → (numbers log).getLast? = some n
  /-- A call that has nothing left to do but to return an error has taken it back. -/
  spent : ∀ model n limits causes, c.call = .go model n limits →
    c.progress = .acting k [] (some causes) → TakenBack log n

section TakenBack

variable {k : Nat} {log more : List Mark} {c : OpenCall} {f : Fleet}

theorem TakenBack.append {n : SearchId} (h : TakenBack log n) (hmore : numbers more = []) :
    TakenBack (log ++ more) n := by
  obtain ⟨before, later, rfl, hlast, hlater⟩ := h
  exact ⟨before, later ++ more, by simp, hlast, by rw [numbers_append, hlater, hmore]; rfl⟩

/-- A search is still the last as long as no other is recorded. -/
theorem Submitting.append (h : Submitting k log c) (hmore : numbers more = []) :
    Submitting k (log ++ more) c where
  recorded model n limits rest failure hcall hp hn := by
    rw [numbers_append, hmore, List.append_nil]
    exact h.recorded model n limits rest failure hcall hp hn
  spent model n limits causes hcall hp := (h.spent model n limits causes hcall hp).append hmore

/-- A call that has not begun has its search still to record. -/
theorem submitting_opening (f : Fleet) (task : TaskId) (call : EngineCall) :
    Submitting k log ⟨task, call, f.opening call⟩ where
  recorded model n limits rest failure hcall hp hn := by
    subst hcall
    cases hp
    simp at hn
  spent model n limits causes hcall hp := by
    subst hcall
    cases hp

/-- What a call leaves in the journal of its process as it does an action. -/
theorem showing_of_acting (hc : f.call? c.task = some c) {a : Action} {rest : List Action}
    {failure : Option Causes} (hp : c.progress = .acting k (a :: rest) failure) {i : Instance}
    (hi : f.instances[k]? = some i) :
    (view k).showing Instance.marks f (.step (.proceed c.task)) = i.markOf a := by
  rw [View.showing_of_some _ (v := view k) hi, deeds_of_acting hc hp hi]
  exact (List.append_nil _).trans (i.marks_deed a)

end TakenBack

/-- The actions of a call that submits a search. -/
theorem course_of_go {model : String} {n : SearchId} {limits : SearchLimits} {k : Nat}
    {as : List Action} {failure : Option Causes}
    (h : OnCourse (.go model n limits) (.acting k as failure)) :
    failure = none ∧ (as = [.record n, .write (goCommand limits)] ∨
        as = [.write (goCommand limits)] ∨ as = []) ∨
      failure.isSome ∧ (as = [.withdraw] ∨ as = []) := by
  generalize hp : Progress.acting k as failure = progress at h
  cases h with
  | broken causes =>
    cases hp
    exact Or.inr ⟨rfl, Or.inl rfl⟩
  | spent causes =>
    cases hp
    exact Or.inr ⟨rfl, Or.inr rfl⟩
  | acting done hactions =>
    cases hp
    rcases done with _ | ⟨_, _ | ⟨_, done⟩⟩
    · cases hactions
      exact Or.inl ⟨rfl, Or.inl rfl⟩
    · cases hactions
      exact Or.inl ⟨rfl, Or.inr (Or.inl rfl)⟩
    · have hlength := congrArg List.length (Except.ok.inj hactions)
      simp only [List.length_cons, List.length_nil, List.length_append] at hlength
      exact Or.inl ⟨rfl, Or.inr (Or.inr (List.eq_nil_of_length_eq_zero (by omega)))⟩

section SubmittingStep

variable {f : Fleet} {k : Nat} {log : List Mark} {c d : OpenCall}

theorem submitting_elsewhere (h : ∀ as failure, d.progress ≠ .acting k as failure) :
    Submitting k log d where
  recorded _ _ _ rest failure _ hp := absurd hp (h rest failure)
  spent _ _ _ causes _ hp := absurd hp (h [] (some causes))

/-- A call has its search recorded. -/
theorem Submitting.record (ho : OnCourse c.call c.progress) {n : SearchId} {rest : List Action}
    {failure : Option Causes} (hp : c.progress = .acting k (.record n :: rest) failure) :
    Submitting k (log ++ [.recorded n]) { c with progress := .acting k rest failure } where
  recorded model m limits rest' failure' hcall _ _ := by
    rw [hp, show c.call = .go model m limits from hcall] at ho
    rcases course_of_go ho with ⟨-, has | has | has⟩ | ⟨-, has | has⟩ <;> cases has
    simp [numbers, Mark.number?]
  spent model m limits causes hcall hnew := by
    cases hnew
    rw [hp] at ho
    cases ho.go_of_record.1

theorem Submitting.onward (h : Submitting k log c) (ho : OnCourse c.call c.progress)
    {f' : Fleet} {progress : Progress} (hon : Onward f f' c progress) {more : List Mark}
    (hmore : numbers more = [])
    (hshown : ∀ a rest failure, c.progress = .acting k (a :: rest) failure →
      (∀ n, a ≠ .record n) ∧ (a = .withdraw → more = [.withdrawn])) :
    Submitting k (log ++ more) { c with progress } := by
  cases hon with
  | launched hl | refused hl =>
    -- Only the creation of an engine has its process launched.
    obtain ⟨model, hcreate⟩ := (hl ▸ ho).create_of_launching
    exact ⟨fun _ _ _ _ _ hcall => (by cases hcreate.symm.trans hcall),
      fun _ _ _ _ hcall => by cases hcreate.symm.trans hcall⟩
  | skipped => exact h.append hmore
  | @done j a rest failure hp =>
    refine ⟨fun model n limits rest' failure' hcall hnew hn => ?_,
      fun model n limits causes hcall hnew => ?_⟩
    · cases hnew
      rw [numbers_append, hmore, List.append_nil]
      refine h.recorded model n limits _ _ hcall hp fun hmem => ?_
      rcases List.mem_cons.1 hmem with rfl | hmem
      · exact (hshown _ _ _ hp).1 n rfl
      · exact hn hmem
    · cases hnew
      rw [hp, show c.call = .go model n limits from hcall] at ho
      rcases course_of_go ho with ⟨hno, -⟩ | ⟨-, has | has⟩
      · cases hno
      · cases has
        rw [(hshown _ _ _ hp).2 rfl]
        exact ⟨log, [], rfl, h.recorded model n limits _ _ hcall hp (by simp), rfl⟩
      · cases has
  | @broken j line rest failure causes hp =>
    refine ⟨fun model n limits rest' failure' hcall hnew _ => ?_,
      fun model n limits causes' hcall hnew => ?_⟩
    · rw [numbers_append, hmore, List.append_nil]
      cases hnew
      refine h.recorded model n limits _ _ hcall hp ?_
      rw [hp, show c.call = .go model n limits from hcall] at ho
      rcases course_of_go ho with ⟨-, has | has | has⟩ | ⟨-, has | has⟩ <;> cases has
      simp
    · rw [show c.call = .go model n limits from hcall] at hnew
      cases hnew
  | abandoned causes hp =>
    have hno : ∀ model n limits, c.call ≠ .go model n limits := by
      intro model n limits hcall
      rw [hp, hcall] at ho
      rcases course_of_go ho with ⟨-, has | has | has⟩ | ⟨-, has | has⟩ <;> cases has
    exact ⟨fun _ _ _ _ _ hcall => absurd hcall (hno _ _ _),
      fun _ _ _ _ hcall => absurd hcall (hno _ _ _)⟩

/-- A step leaves the calls as they should stand to the journal. -/
theorem submitting_step (ha : f.Apart) (h : ∀ c ∈ f.calls, Submitting k log c) (e : Event)
    (hd : d ∈ (f.step e).1.calls) :
    Submitting k (log ++ (view k).showing Instance.marks f (.step e)) d := by
  by_cases hnone : numbers ((view k).showing Instance.marks f (.step e)) = []
  · rcases ha.mem_step hd with hd | ⟨c, hc, progress, rfl, hon, he⟩
    · exact (h d hd).append hnone
    · refine (h c hc).onward (ha.course c hc) hon hnone fun a rest failure hp => ?_
      obtain ⟨i, hi, -⟩ := ha.placed c hc k _ failure hp
      cases he k _ failure hp
      have hmark := showing_of_acting (ha.call?_eq hc) hp hi
      rw [hmark] at hnone ⊢
      exact ⟨fun n hn => (by subst hn; cases hnone), fun hw => by subst hw; rfl⟩
  · -- The only call that acts on the process has its search recorded.
    obtain ⟨n, hn⟩ := List.exists_mem_of_ne_nil _ hnone
    obtain ⟨c, i, rest, failure, hc, he, hi, hp, hmark⟩ := recorded_of_showing hn
    cases he
    have hmem := List.mem_of_find?_eq_some hc
    rw [hmark]
    rw [step_of_acting hc hp hi] at hd
    rcases (ha.mem_advance hmem).1 hd with rfl | ⟨hd, ht⟩
    · exact .record (ha.course c hmem) hp
    · refine submitting_elsewhere fun as failure' hdp => ht ?_
      rw [ha.eq_of_process hd hmem hdp hp]

end SubmittingStep

theorem submitting_after {k : Nat} {xs : List Incident} (hx : empty.Conducted xs) :
    ∀ c ∈ (empty.after xs).calls, Submitting k (journalOf k xs) c := by
  induction xs using List.reverseRecOn with
  | nil => exact fun c hc => by cases hc
  | append_singleton xs x ih =>
    obtain ⟨hxs, hlast⟩ := throughout_append.1 hx
    have h := ih hxs
    rw [after_concat, journalOf_concat]
    cases x with
    | call task call =>
      rw [showing_call, List.append_nil]
      intro c hc
      rcases List.mem_append.1 hc with hc | hc
      · exact h c hc
      · rw [List.mem_singleton.1 hc]
        exact submitting_opening _ _ _
    | giveUp task =>
      rw [showing_giveUp, List.append_nil]
      intro c hc
      change c ∈ ((empty.after xs).giveUp task).calls at hc
      rw [calls_giveUp] at hc
      exact h c (List.mem_of_mem_filter hc)
    | step e => exact fun c hc => submitting_step (apart_after apart_empty hxs) h e hc

end Fleet

end Sparring.Uci
