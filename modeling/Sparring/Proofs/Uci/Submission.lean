import Sparring.Proofs.Service.Numbers
import Sparring.Proofs.Uci.Conduct

/-!
# How a search gets to a process

A request submits its search to one process: the search is recorded, and then the line that
starts it is written. Nothing but the reader makes marks in between, and no search is recorded
twice. So a request that waits for its reply finds its search in one journal, followed by its own
line and by no other line, search or withdrawal (`kept_after`).
-/

namespace Sparring.Uci

/-! ## Marks of calls -/

/-- Whether a mark is made by a call, and not by the reader. -/
def Mark.OfCall : Mark → Prop
  | .recorded _ | .withdrawn | .wrote _ | .took _ => True
  | .heard _ | .looked => False

/-- The mark that an action makes, if it makes one. -/
def Instance.markOf (i : Instance) : Action → List Mark
  | .write line => if i.inputOpen then [.wrote line] else []
  | .record n => [.recorded n]
  | .withdraw => [.withdrawn]
  | .await _ => i.acks.head?.toList.map .took

theorem Instance.marks_deed (i : Instance) (a : Action) : i.marks a.deed = i.markOf a := by
  cases a <;> rfl

/-- How an action makes a mark. -/
inductive Instance.Makes (i : Instance) : Action → Mark → Prop
  | wrote {line : String} : i.inputOpen = true → Makes i (.write line) (.wrote line)
  | recorded (n : SearchId) : Makes i (.record n) (.recorded n)
  | withdrawn : Makes i .withdraw .withdrawn
  | took {got : Ack} {acks : List Ack} (b : Ack) : i.acks = got :: acks →
      Makes i (.await b) (.took got)

/-- An action makes one mark at most. -/
theorem Instance.makes_of_mem {i : Instance} {x : Action} {a : Mark} (h : a ∈ i.markOf x) :
    i.markOf x = [a] ∧ i.Makes x a := by
  cases x with
  | write line =>
    simp only [markOf] at h ⊢
    split at h
    next hopen =>
      rw [if_pos hopen, List.mem_singleton.1 h]
      exact ⟨rfl, .wrote hopen⟩
    · cases h
  | record n =>
    rw [List.mem_singleton.1 h]
    exact ⟨rfl, .recorded n⟩
  | withdraw =>
    rw [List.mem_singleton.1 h]
    exact ⟨rfl, .withdrawn⟩
  | await b =>
    cases hacks : i.acks with
    | nil => simp [markOf, hacks] at h
    | cons got acks =>
      rw [markOf, hacks] at h ⊢
      rw [List.mem_singleton.1 h]
      exact ⟨rfl, .took b hacks⟩

theorem ofCall_of_mem_marks {i : Instance} {d : Deed} {a : Mark} (h : a ∈ i.marks d)
    (ha : a.OfCall) : d.OfCall := by
  cases d with
  | read =>
    rcases List.mem_append.1 h with h | h
    · obtain ⟨_, -, rfl⟩ := List.mem_map.1 h
      cases ha
    · split at h
      · cases List.mem_singleton.1 h
        cases ha
      · cases h
  | write | record | withdraw | takeAck => trivial
  | print | closeOutput | closeInput => cases h

theorem calling_of_showing {s : System Fleet} {k : Nat} {e : Occurrence} {a : Mark}
    (h : a ∈ showing k Instance.marks s e) (ha : a.OfCall) :
    s.service.aborted = false ∧ ∃ c ∈ s.engines.calls, e = .engine (.proceed c.task) ∧
      ∃ i x rest failure, s.engines.instances[k]? = some i ∧
        c.progress = .acting k (x :: rest) failure ∧ deedsOf s k e = [x.deed] ∧
        showing k Instance.marks s e = i.markOf x := by
  unfold showing at h ⊢
  cases hi : s.engines.instances[k]? with
  | none =>
    rw [hi] at h
    cases h
  | some i =>
    rw [hi] at h
    obtain ⟨xs, d, ys, hdeeds, hd⟩ := mem_observe.1 h
    have hmem : d ∈ deedsOf s k e := by
      rw [hdeeds]
      simp
    obtain ⟨hone, hgo, c, hc, he, x, rest, failure, hp, rfl⟩ :=
      calling_of_mem hmem (ofCall_of_mem_marks hd ha)
    refine ⟨hgo, c, hc, he, i, x, rest, failure, rfl, hp, hone, ?_⟩
    simp only [hone, observe, List.append_nil]
    exact i.marks_deed x

theorem showing_of_mem {s : System Fleet} {k : Nat} {e : Occurrence} {a : Mark}
    (h : a ∈ showing k Instance.marks s e) (ha : a.OfCall) :
    showing k Instance.marks s e = [a] := by
  obtain ⟨-, c, -, -, i, x, rest, failure, -, -, -, hmark⟩ := calling_of_showing h ha
  rw [hmark] at h ⊢
  exact (Instance.makes_of_mem h).1

theorem record_of_showing {s : System Fleet} {k : Nat} {e : Occurrence} {n : SearchId}
    (h : .recorded n ∈ showing k Instance.marks s e) : deedsOf s k e = [.record n] := by
  obtain ⟨-, c, -, -, i, x, rest, failure, -, -, hdeeds, hmark⟩ := calling_of_showing h trivial
  rw [hmark] at h
  cases (Instance.makes_of_mem h).2
  exact hdeeds

/-- The mark of a call splits a run into what came before and what comes after. -/
theorem split_journal {s : System Fleet} {k : Nat} {es : List Occurrence} {a : Mark}
    {xs ys : List Mark} (h : journalOf s k es = xs ++ a :: ys) (ha : a.OfCall) :
    ∃ before e rest, es = before ++ e :: rest ∧ journalOf s k before = xs ∧
      showing k Instance.marks (s.after before) e = [a] ∧
      journalOf (s.after (before ++ [e])) k rest = ys := by
  have halone : ∀ (s : System Fleet) (e : Occurrence), a ∈ showing k Instance.marks s e →
      showing k Instance.marks s e = [a] := fun _ _ hmem => showing_of_mem hmem ha
  obtain ⟨before, e, rest, rfl, hbefore, he⟩ := observe_split halone h
  refine ⟨before, e, rest, rfl, hbefore, he, ?_⟩
  have hbefore' : journalOf s k before = xs := hbefore
  have he' : showing k Instance.marks (s.after before) e = [a] := he
  rw [journalOf_append, journalOf_cons, hbefore', he'] at h
  rw [System.after_concat]
  exact (List.cons.inj (List.append_cancel_left h)).2

/-! ## Journals -/

/-- The journals of all processes. -/
abbrev Journals := Nat → List Mark

/-- Whether journals have grown by marks of the readers only. -/
def Quiet (J J' : Journals) : Prop :=
  ∀ k, ∃ more, J' k = J k ++ more ∧ ∀ a ∈ more, ¬a.OfCall

/-- A search stands in one journal, once: `before` and `later` are the rest of that journal. -/
structure Once (J : Journals) (n : SearchId) (k : Nat) (before later : List Mark) : Prop where
  journal : J k = before ++ .recorded n :: later
  first : .recorded n ∉ before
  last : .recorded n ∉ later
  elsewhere : ∀ j, j ≠ k → .recorded n ∉ J j

theorem not_recorded_of_quiet {more : List Mark} (h : ∀ a ∈ more, ¬a.OfCall) (n : SearchId) :
    .recorded n ∉ more := fun hn => h _ hn trivial

namespace Once

variable {J J' : Journals} {n : SearchId} {k : Nat} {before later : List Mark}

/-- There is only one place where the search stands. -/
theorem unique (h : Once J n k before later) {j : Nat} {xs ys : List Mark}
    (hj : J j = xs ++ .recorded n :: ys) : j = k ∧ xs = before ∧ ys = later := by
  have hk : j = k := by
    by_contra hne
    apply h.elsewhere j hne
    rw [hj]
    simp
  subst hk
  rw [h.journal] at hj
  -- Where the two places differ, the search would stand twice.
  rcases List.append_eq_append_iff.1 hj with ⟨zs, rfl, hzs⟩ | ⟨zs, hzs, hrest⟩
  · cases zs with
    | nil =>
      obtain ⟨-, rfl⟩ := List.cons.inj hzs
      exact ⟨rfl, by simp, rfl⟩
    | cons z zs =>
      obtain ⟨-, hlater⟩ := List.cons.inj hzs
      refine absurd ?_ h.last
      rw [hlater]
      simp
  · cases zs with
    | nil =>
      obtain ⟨-, rfl⟩ := List.cons.inj hrest
      exact ⟨rfl, by simpa using hzs.symm, rfl⟩
    | cons z zs =>
      obtain ⟨rfl, -⟩ := List.cons.inj hrest
      refine absurd ?_ h.first
      rw [hzs]
      simp

theorem grow (h : Once J n k before later) {more : Journals} (hJ : ∀ j, J' j = J j ++ more j)
    (hmore : ∀ j, .recorded n ∉ more j) : Once J' n k before (later ++ more k) where
  journal := by rw [hJ, h.journal]; simp
  first := h.first
  last := by
    rw [List.mem_append, not_or]
    exact ⟨h.last, hmore k⟩
  elsewhere j hj := by
    rw [hJ, List.mem_append, not_or]
    exact ⟨h.elsewhere j hj, hmore j⟩

theorem quiet (h : Once J n k before later) (hq : Quiet J J') :
    ∃ more, Once J' n k before (later ++ more) ∧ ∀ a ∈ more, ¬a.OfCall := by
  choose more hmore hno using hq
  exact ⟨more k, h.grow hmore fun j => not_recorded_of_quiet (hno j) n, hno k⟩

end Once

/-- A search has been submitted: it stands in one journal, and the only mark that a call has made
since is the line that starts it. -/
structure Submitted (J : Journals) (n : SearchId) (k : Nat) (line : String)
    (before during later : List Mark) : Prop where
  once : Once J n k before (during ++ .wrote line :: later)
  during_quiet : ∀ a ∈ during, ¬a.OfCall
  later_quiet : ∀ a ∈ later, ¬a.OfCall

/-- How far the submission of a search has come. -/
inductive Submission (J : Journals) (n : SearchId) (line : String) : Progress → Prop
  | opening {k : Nat} : (∀ j, .recorded n ∉ J j) →
      Submission J n line (.acting k [.record n, .write line] none)
  | recorded {k : Nat} {before during : List Mark} : Once J n k before during →
      (∀ a ∈ during, ¬a.OfCall) → Submission J n line (.acting k [.write line] none)
  | written {k : Nat} {before during later : List Mark} :
      Submitted J n k line before during later → Submission J n line (.acting k [] none)
  | failing {progress : Progress} : progress.Failing → Submission J n line progress

section Quiet

variable {J J' : Journals} {n : SearchId} {line : String}

theorem quiet_append {xs ys : List Mark} (hx : ∀ a ∈ xs, ¬a.OfCall) (hy : ∀ a ∈ ys, ¬a.OfCall) :
    ∀ a ∈ xs ++ ys, ¬a.OfCall := fun a ha => (List.mem_append.1 ha).elim (hx a) (hy a)

theorem Submitted.quiet {k : Nat} {before during later : List Mark}
    (h : Submitted J n k line before during later) (hq : Quiet J J') :
    ∃ more, Submitted J' n k line before during (later ++ more) := by
  obtain ⟨more, honce, hno⟩ := h.once.quiet hq
  rw [List.append_assoc] at honce
  exact ⟨more, honce, h.during_quiet, quiet_append h.later_quiet hno⟩

/-- Whether a search has been submitted to some process. -/
def Placed (J : Journals) (n : SearchId) : Prop :=
  ∃ k limits before during later, Submitted J n k (goCommand limits) before during later

theorem Placed.quiet (h : Placed J n) (hq : Quiet J J') : Placed J' n := by
  obtain ⟨k, limits, before, during, later, hsub⟩ := h
  obtain ⟨more, hsub'⟩ := hsub.quiet hq
  exact ⟨k, limits, before, during, _, hsub'⟩

theorem Submission.quiet {progress : Progress} (h : Submission J n line progress)
    (hq : Quiet J J') : Submission J' n line progress := by
  cases h with
  | opening hfresh =>
    apply Submission.opening
    intro j hj
    obtain ⟨more, hmore, hno⟩ := hq j
    rw [hmore, List.mem_append] at hj
    exact hj.elim (hfresh j) (not_recorded_of_quiet hno n)
  | recorded honce hduring =>
    obtain ⟨more, honce', hno⟩ := honce.quiet hq
    exact .recorded honce' (quiet_append hduring hno)
  | written hsub =>
    obtain ⟨more, hsub'⟩ := hsub.quiet hq
    exact .written hsub'
  | failing hf => exact .failing hf

/-- The call to submit a search has its process already. -/
theorem Submission.ne_launching {progress : Progress} (h : Submission J n line progress) :
    progress ≠ .launching := by
  rintro rfl
  cases h with
  | failing hf => cases hf

end Quiet

/-! ## Steps of a submission -/

section Marked

variable {J J' : Journals} {n : SearchId} {k : Nat} {line : String}

theorem once_of_fresh (hfresh : ∀ j, .recorded n ∉ J j) (hk : J' k = J k ++ [.recorded n])
    (hj : ∀ j, j ≠ k → J' j = J j) : Once J' n k (J k) [] :=
  ⟨hk, hfresh k, List.not_mem_nil, fun j hne => by rw [hj j hne]; exact hfresh j⟩

theorem Once.submitted {before during : List Mark} (h : Once J n k before during)
    (hduring : ∀ a ∈ during, ¬a.OfCall) (hk : J' k = J k ++ [.wrote line])
    (hj : ∀ j, j ≠ k → J' j = J j) : Submitted J' n k line before during [] := by
  refine ⟨⟨by rw [hk, h.journal]; simp, h.first, ?_, ?_⟩, hduring, by simp⟩
  · simpa using h.last
  · intro j hne
    rw [hj j hne]
    exact h.elsewhere j hne

end Marked

namespace Fleet

variable {f : Fleet} {c : OpenCall}

theorem call?_of_calls (hc : f.calls = [c]) : f.call? c.task = some c := by
  simp [call?, hc]

theorem call_of_step (hc : f.calls = [c]) (ho : OnCourse c.call c.progress) {e : Event}
    {c' : OpenCall} (h : c' ∈ (f.step e).1.calls) : c'.call = c.call := by
  rcases step_only hc ho e with ⟨hnone, -⟩ | ⟨-, progress, hcalls, -⟩
  · rw [hnone] at h
    cases h
  · rw [hcalls] at h
    rw [List.mem_singleton.1 h]

/-- The only call under way stays as it is when it does not go on. -/
theorem calls_step_of_ne (hc : f.calls = [c]) (hp : c.progress ≠ .launching) {e : Event}
    (he : e ≠ .proceed c.task) : (f.step e).1.calls = [c] := by
  cases e with
  | launched task failure =>
    simp only [step]
    split
    · exact hc
    next d hd =>
      cases eq_of_call? hc hd
      unfold launched
      split
      next hl => exact absurd hl hp
      next hl => exact absurd hl hp
      · exact hc
  | proceed task =>
    simp only [step]
    split
    · exact hc
    next d hd =>
      cases eq_of_call? hc hd
      exact absurd (by rw [task_of_call? hd]) he
  | read process =>
    simp only [step]
    split <;> exact hc
  | print | closeOutput | closeInput => exact hc

theorem calls_proceed_of_absent (hc : f.calls = [c]) {k : Nat} {x : Action} {rest : List Action}
    {failure : Option Causes} (hp : c.progress = .acting k (x :: rest) failure)
    (hk : f.instances[k]? = none) : (f.proceed c).1.calls = [] := by
  simp only [proceed, hp, hk]
  exact (returns_finish hc k _ fun h => by cases h).1

/-- How far the only call under way is after an action. -/
theorem calls_act (hc : f.calls = [c]) (k : Nat) (i : Instance) (rest : List Action) :
    (∀ n, (f.act c k i (.record n) rest none).calls =
      [{ c with progress := .acting k rest none }]) ∧
    ∀ line, (f.act c k i (.write line) rest none).calls =
      [{ c with progress :=
          if i.inputOpen then .acting k rest none
          else .acting k (afterFailure c.call) (some (brokenPipe c.call.model)) }] := by
  constructor
  · intro n
    simp [act, advance, modify, hc]
  · intro line
    cases hopen : i.inputOpen <;> simp [act, advance, modify, hc, hopen]

/-- A call returns with success when its actions are done. -/
theorem spent_of_returned (hc : f.calls = [c]) {e : Event} {id : TaskId}
    (h : (f.step e).2 = some (.returned id .ok)) : ∃ k, c.progress = .acting k [] none := by
  obtain ⟨d, hd, hreturning⟩ := returning_of_step h
  cases eq_of_call? hc hd
  generalize c.progress = progress at hreturning ⊢
  cases hreturning with
  | done k => exact ⟨k, rfl⟩

end Fleet

section Step

variable {s : System Fleet} {c : OpenCall} {J : Journals} {n : SearchId} {line : String}

/-- The journals after a step. -/
def enter (J : Journals) (s : System Fleet) (e : Occurrence) : Journals :=
  fun k => J k ++ showing k Instance.marks s e

theorem enter_of_acting (ha : s.service.aborted = false) (hc : s.engines.calls = [c])
    {k : Nat} {x : Action} {rest : List Action} {failure : Option Causes}
    (hp : c.progress = .acting k (x :: rest) failure) {i : Instance}
    (hi : s.engines.instances[k]? = some i) :
    enter J s (.engine (.proceed c.task)) k = J k ++ i.markOf x ∧
      ∀ j, j ≠ k → enter J s (.engine (.proceed c.task)) j = J j := by
  have hdeeds : ∀ j, s.engines.deeds j (.proceed c.task) = if k = j then [x.deed] else [] := by
    intro j
    simp only [Fleet.deeds, Fleet.call?_of_calls hc, OpenCall.deeds, hp]
  constructor
  · simp only [enter, showing, hi, deedsOf, ha, hdeeds, if_pos]
    simp [observe, Instance.marks_deed]
  · intro j hj
    simp only [enter, showing]
    cases hij : s.engines.instances[j]? with
    | none => exact List.append_nil _
    | some i' => simp [deedsOf, ha, hij, hdeeds, Ne.symm hj]

theorem Submission.proceed (ha : s.service.aborted = false) (hc : s.engines.calls = [c])
    (ho : OnCourse c.call c.progress) (h : Submission J n line c.progress) {c' : OpenCall}
    (hc' : c' ∈ (s.engines.proceed c).1.calls) :
    Submission (enter J s (.engine (.proceed c.task))) n line c'.progress := by
  have henter := @enter_of_acting s c J ha hc
  obtain ⟨progress', hcalls, -, hkeep⟩ : Fleet.GoesOn c (s.engines.proceed c).1 := by
    rcases Fleet.proceed_only hc ho with ⟨hnone, -⟩ | ⟨-, hgoes⟩
    · rw [hnone] at hc'
      cases hc'
    · exact hgoes
  obtain ⟨task, call, progress⟩ := c
  rw [hcalls] at hc'
  cases List.mem_singleton.1 hc'
  -- The process is there, or the call would return.
  have hpresent : ∀ {k x rest failure}, progress = .acting k (x :: rest) failure →
      ∃ i, s.engines.instances[k]? = some i ∧
        (s.engines.proceed ⟨task, call, progress⟩).1 =
          s.engines.act ⟨task, call, progress⟩ k i x rest failure := by
    rintro k x rest failure rfl
    cases hi : s.engines.instances[k]? with
    | none =>
      rw [Fleet.calls_proceed_of_absent hc rfl hi] at hcalls
      cases hcalls
    | some i => exact ⟨i, rfl, by simp only [Fleet.proceed, hi]⟩
  cases h with
  | failing hf => exact .failing (hkeep hf)
  | opening hfresh =>
    obtain ⟨i, hi, hact⟩ := hpresent rfl
    obtain ⟨hk, hj⟩ := henter rfl hi
    rw [hact, (Fleet.calls_act hc _ i _).1] at hcalls
    cases hcalls
    exact .recorded (once_of_fresh hfresh hk hj) (by simp)
  | recorded honce hduring =>
    obtain ⟨i, hi, hact⟩ := hpresent rfl
    obtain ⟨hk, hj⟩ := henter rfl hi
    rw [hact, (Fleet.calls_act hc _ i _).2] at hcalls
    cases hopen : i.inputOpen with
    | true =>
      simp only [Instance.markOf, hopen, if_true] at hk
      rw [hopen] at hcalls
      cases hcalls
      exact .written (honce.submitted hduring hk hj)
    | false =>
      rw [hopen] at hcalls
      cases hcalls
      exact .failing rfl
  | @written k =>
    have hnil : (s.engines.proceed ⟨task, call, .acting k [] none⟩).1.calls = [] :=
      (Fleet.returns_finish hc k none fun _ h => by cases h).1
    rw [hnil] at hcalls
    cases hcalls

end Step

/-! ## What the journals keep -/

/-- A task that makes the call to submit a search has just been issued its number. -/
theorem issued_of_effect {s : Service} {e : Service.Event} {id : TaskId} {model : String}
    {n : SearchId} {limits : SearchLimits}
    (h : (s.step e).2 = some (.call id (.go model n limits))) :
    n.number = s.handoff.issued + 1 := by
  cases ha : s.aborted with
  | true =>
    rw [Service.step_of_aborted ha] at h
    cases h
  | false =>
    have hc := Service.change_step ha e
    generalize s.step e = out at hc h
    cases hc with
    | idle | arrived | queued => cases h
    | completed c =>
      simp only at h
      split at h <;> cases h
    | @entered j t ht hw hp =>
      obtain ⟨p, hstage⟩ := Stage.submitting_of_go (Service.call?_of_effect h)
      have hplain := s.plain_firstStage t.job
      rw [show s.firstStage t.job = .submitting p n from hstage] at hplain
      cases hplain
    | passed he ht hpass =>
      obtain ⟨p, hstage⟩ := Stage.submitting_of_go (Service.call?_of_effect h)
      exact hpass.of_submitting hstage

theorem mem_calls_takeUp {f : Fleet} {effect : Option Service.Effect} {c : OpenCall}
    (h : c ∈ (System.takeUp f effect).calls) :
    c ∈ f.calls ∨ ∃ id call, effect = some (.call id call) ∧ c = ⟨id, call, f.opening call⟩ := by
  rcases effect with _ | ⟨id, call⟩ | r
  · exact Or.inl h
  · rcases List.mem_append.1 h with h | h
    · exact Or.inl h
    · exact Or.inr ⟨id, call, rfl, List.mem_singleton.1 h⟩
  · exact Or.inl h

/-- What the journals have to do with the tasks. -/
structure Kept (s : System Fleet) (J : Journals) : Prop where
  once : ∀ k n, .recorded n ∈ J k → ∃ before later, Once J n k before later
  /-- A search that has been recorded has been issued. -/
  issued : ∀ k n, .recorded n ∈ J k → n.number ≤ s.service.handoff.issued
  submitting : ∀ c ∈ s.engines.calls, ∀ model n limits, c.call = .go model n limits →
    Submission J n (goCommand limits) c.progress
  thinking : ∀ id p n, s.service.stage? id = some (.thinking p n) → Placed J n

namespace Kept

variable {s : System Fleet} {J : Journals} {e : Occurrence}

/-- A search is recorded when it is the one issued last. -/
theorem issued_of_record (hs : Served s) (hn : s.service.Numbered) {k : Nat} {n : SearchId}
    (h : .recorded n ∈ showing k Instance.marks s e) :
    n.number = s.service.handoff.issued := by
  have hrecord := record_of_showing h
  have hmem : .record n ∈ deedsOf s k e := by
    rw [hrecord]
    exact List.mem_singleton_self _
  obtain ⟨c, p, -, hid, -⟩ := hs.of_record hmem
  exact hn n ⟨c.task, _, hid, rfl⟩

/-- A search that is recorded stands nowhere yet. -/
theorem fresh_of_record (h : Kept s J) (hs : Served s) {k : Nat} {n : SearchId}
    (hn : .recorded n ∈ showing k Instance.marks s e) (j : Nat) : .recorded n ∉ J j := by
  obtain ⟨-, c, hc, -, i, x, rest, failure, -, hp, hdeeds, -⟩ := calling_of_showing hn trivial
  have hrecord : x = .record n := by
    have hdeed := List.singleton_inj.1 (hdeeds.symm.trans (record_of_showing hn))
    cases x <;> cases hdeed
    rfl
  subst hrecord
  cases hs with
  | idle hnone _ =>
    rw [hnone] at hc
    cases hc
  | @busy d stage hone _ _ ho =>
    have hmem := hc
    rw [hone] at hc
    cases List.mem_singleton.1 hc
    rw [hp] at ho
    obtain ⟨rfl, model, limits, hgo⟩ := ho.go_of_record
    have hsub := h.submitting c hmem model n limits hgo
    rw [hp] at hsub
    cases hsub with
    | opening hfresh => exact hfresh j
    | failing hf => cases hf

/-- A step makes marks of calls in one journal only. -/
theorem process_of_showing (hs : Served s) {j k : Nat} {a b : Mark}
    (hj : a ∈ showing j Instance.marks s e) (ha : a.OfCall)
    (hk : b ∈ showing k Instance.marks s e) (hb : b.OfCall) : j = k := by
  obtain ⟨-, c, hc, -, _, _, _, _, -, hp, -⟩ := calling_of_showing hj ha
  obtain ⟨-, d, hd, -, _, _, _, _, -, hp', -⟩ := calling_of_showing hk hb
  cases hs with
  | idle hnone _ =>
    rw [hnone] at hc
    cases hc
  | busy hone =>
    rw [hone] at hc hd
    cases List.mem_singleton.1 hc
    cases List.mem_singleton.1 hd
    exact (Progress.acting.inj (hp.symm.trans hp')).1

/-- No search is recorded twice. -/
theorem once_step (h : Kept s J) (hs : Served s) {k : Nat} {n : SearchId}
    (hn : .recorded n ∈ enter J s e k) : ∃ before later, Once (enter J s e) n k before later := by
  by_cases hnew : ∃ j, .recorded n ∈ showing j Instance.marks s e
  · obtain ⟨j, hj⟩ := hnew
    have hfresh := h.fresh_of_record hs hj
    have hk := (List.mem_append.1 hn).resolve_left (hfresh k)
    refine ⟨J k, [], ⟨?_, hfresh k, List.not_mem_nil, ?_⟩⟩
    · rw [enter, showing_of_mem hk trivial]
    · intro i hi hmem
      have hi' := (List.mem_append.1 hmem).resolve_left (hfresh i)
      exact hi (process_of_showing hs hi' trivial hk trivial)
  · have hno : ∀ j, .recorded n ∉ showing j Instance.marks s e := fun j hj => hnew ⟨j, hj⟩
    obtain ⟨before, later, honce⟩ := h.once k n ((List.mem_append.1 hn).resolve_right (hno k))
    exact ⟨before, _, honce.grow (fun _ => rfl) hno⟩

/-- Unless a call does an action, only the readers make marks. -/
theorem quiet_enter (J : Journals)
    (h : ∀ c ∈ s.engines.calls, e = .engine (.proceed c.task) →
      ∃ k, c.progress = .acting k [] none) :
    Quiet J (enter J s e) := by
  refine fun k => ⟨_, rfl, ?_⟩
  intro a ha hcall
  obtain ⟨-, c, hc, he, i, x, rest, failure, -, hp, -⟩ := calling_of_showing ha hcall
  obtain ⟨k', hspent⟩ := h c hc he
  rw [hspent] at hp
  cases hp

/-- The calls after a step, and where a new one comes from. -/
theorem mem_calls_step {c : OpenCall} (h : c ∈ (s.step e).engines.calls) :
    c ∈ (s.engineStep e).1.calls ∨ ∃ e' id call, (s.service.step e').2 = some (.call id call) ∧
      c = ⟨id, call, (s.engineStep e).1.opening call⟩ := by
  rw [System.step_eq] at h
  cases hr : s.relay e with
  | none =>
    rw [hr] at h
    exact Or.inl h
  | some e' =>
    rw [hr] at h
    rcases mem_calls_takeUp h with h | ⟨id, call, heff, hc⟩
    · exact Or.inl h
    · exact Or.inr ⟨e', id, call, heff, hc⟩

theorem submitting_engines (h : Kept s J) (hs : Served s) (ha : s.service.aborted = false)
    {e : Fleet.Event} {c : OpenCall} (hc : c ∈ (s.engines.step e).1.calls) {model : String}
    {n : SearchId} {limits : SearchLimits} (hgo : c.call = .go model n limits) :
    Submission (enter J s (.engine e)) n (goCommand limits) c.progress := by
  cases hs with
  | idle hnone _ =>
    rw [(Fleet.step_none hnone e).2] at hc
    cases hc
  | @busy d stage hone hid hcall ho =>
    rw [Fleet.call_of_step hone ho hc] at hgo
    have hsub := h.submitting d (by simp [hone]) model n limits hgo
    by_cases he : e = .proceed d.task
    · subst he
      simp only [Fleet.step, Fleet.call?_of_calls hone] at hc
      exact hsub.proceed ha hone ho hc
    · rw [Fleet.calls_step_of_ne hone hsub.ne_launching he] at hc
      cases List.mem_singleton.1 hc
      refine hsub.quiet (quiet_enter J ?_)
      intro c' hc' he'
      rw [hone] at hc'
      cases List.mem_singleton.1 hc'
      exact absurd (System.Event.engine.inj he') he

/-- The submission of a search begins or goes on. -/
theorem submitting_step (h : Kept s J) (hs : Served s) (hn : s.service.Numbered)
    (ha : s.service.aborted = false) {c : OpenCall} (hc : c ∈ (s.step e).engines.calls)
    {model : String} {n : SearchId} {limits : SearchLimits} (hgo : c.call = .go model n limits) :
    Submission (enter J s e) n (goCommand limits) c.progress := by
  rcases mem_calls_step hc with hc | ⟨e', id, call, heff, rfl⟩
  · cases e with
    | engine e =>
      rw [engineStep_of_going ha] at hc
      exact h.submitting_engines hs ha hc hgo
    | start | run | hangUp =>
      exact (h.submitting c hc model n limits hgo).quiet
        (quiet_enter J fun _ _ he => (by cases he))
  · obtain rfl : call = .go model n limits := hgo
    have hnew := issued_of_effect heff
    apply Submission.opening
    intro j hj
    have hle : n.number ≤ s.service.handoff.issued := by
      rcases List.mem_append.1 hj with hj | hj
      · exact h.issued j n hj
      · exact Nat.le_of_eq (issued_of_record hs hn hj)
    rw [hnew] at hle
    exact Nat.not_succ_le_self _ hle

/-- A task that comes to wait for its reply has submitted its search. -/
theorem submitted_of_returned (h : Kept s J) (hs : Served s) (ho : s.service.Orderly)
    (ha : s.service.aborted = false) {id : TaskId} {p : Profile} {n : SearchId}
    (hid : s.service.stage? id = some (.submitting p n))
    (hr : s.relay e = some (.returned id .ok)) :
    Quiet J (enter J s e) ∧ Placed J n := by
  cases e with
  | start | run | hangUp => cases hr
  | engine e =>
    obtain ⟨ev, hev, hseen⟩ := Option.map_eq_some_iff.1 hr
    cases ev with
    | deliver => cases hseen
    | returned id' r =>
      cases hseen
      rw [engineStep_of_going ha] at hev
      cases hs with
      | idle hnone _ => exact absurd hev ((Fleet.step_none hnone e).1 _ _)
      | @busy c stage hone hid' hcall _ =>
        -- The call under way is that of the task inside, and a call that succeeds has no action left.
        cases ho.inside_unique hid' (Stage.isInside_of_call? hcall) hid rfl
        cases hid'.symm.trans hid
        obtain ⟨k, hp⟩ := Fleet.spent_of_returned hone hev
        have hsub := h.submitting c (by simp [hone]) _ n _ (Option.some.inj hcall).symm
        refine ⟨quiet_enter J ?_, ?_⟩
        · intro c' hc' _
          rw [hone] at hc'
          cases List.mem_singleton.1 hc'
          exact ⟨k, hp⟩
        · rw [hp] at hsub
          cases hsub with
          | written hsub => exact ⟨k, _, _, _, _, hsub⟩
          | failing hf => cases hf

/-- A task that waits for its reply has submitted its search. -/
theorem thinking_step (h : Kept s J) (hs : Served s) (ho : s.service.Orderly)
    (ha : s.service.aborted = false) {id : TaskId} {p : Profile} {n : SearchId}
    (hid : (s.step e).service.stage? id = some (.thinking p n)) :
    Placed (enter J s e) n := by
  have hold : s.service.stage? id = some (.thinking p n) → Quiet J (enter J s e) ∧ Placed J n := by
    refine fun hid => ⟨quiet_enter J ?_, h.thinking id p n hid⟩
    intro c hc _
    rw [hs.calls_of_alone (ho.alone hid rfl) hid rfl] at hc
    cases hc
  have hplaced : Quiet J (enter J s e) ∧ Placed J n := by
    cases hr : s.relay e with
    | none =>
      rw [System.service_of_unseen hr] at hid
      exact hold hid
    | some e' =>
      rw [System.service_of_seen hr] at hid
      rcases Service.stage?_step hid with
        hid | hplain | ⟨-, job, old, r, turn, rfl, hsubmitting, hpass, hturn⟩
      · exact hold hid
      · cases hplain
      · obtain ⟨rfl, rfl⟩ := hpass.of_thinking hturn
        exact h.submitted_of_returned hs ho ha hsubmitting hr
  exact hplaced.2.quiet hplaced.1

theorem step (h : Kept s J) (hs : Served s) (ho : s.service.Orderly) (hn : s.service.Numbered)
    (ha : s.service.aborted = false) : Kept (s.step e) (enter J s e) where
  once _ _ hn := h.once_step hs hn
  issued k n hk := by
    apply Nat.le_trans _ (System.issued_le_append s [] [e])
    rcases List.mem_append.1 hk with hk | hk
    · exact h.issued k n hk
    · exact Nat.le_of_eq (issued_of_record hs hn hk)
  submitting _ hc _ _ _ hgo := h.submitting_step hs hn ha hc hgo
  thinking _ _ _ hid := h.thinking_step hs ho ha hid

end Kept

section Run

variable (settings : EngineSettings) (table : Table) (policy : FailurePolicy)

/-- The journals of a run. -/
def journals (es : List Occurrence) : Journals :=
  fun k => journalOf (start settings table policy) k es

theorem journals_concat (es : List Occurrence) (e : Occurrence) :
    journals settings table policy (es ++ [e]) =
      enter (journals settings table policy es) ((start settings table policy).after es) e :=
  funext fun k => shown_concat _ k _ es e

theorem kept_start :
    Kept (start settings table policy) (journals settings table policy []) where
  once k n h := by cases h
  issued k n h := by cases h
  submitting c hc := by cases hc
  thinking id p n h := by simp [start, Service.new, Service.stage?] at h

variable {settings table policy}

theorem numbered_after_start (es : List Occurrence) :
    ((start settings table policy).after es).service.Numbered := by
  rw [System.service_after]
  exact (Service.orderly_numbered_after (Service.orderly_new settings table policy)
    (Service.numbered_new settings table policy) _).2

theorem step_of_aborted {s : System Fleet} (ha : s.service.aborted = true) (e : Occurrence) :
    s.step e = s ∧ ∀ k, showing k Instance.marks s e = [] := by
  have hserve : ∀ e', s.serve e' = s := by
    intro e'
    rw [System.serve_eq, Service.step_of_aborted ha]
    rfl
  constructor
  · cases e with
    | engine e => exact if_pos ha
    | start | run | hangUp => exact hserve _
  · intro k
    unfold showing
    have hdeeds : deedsOf s k e = [] := by
      cases e <;> simp [deedsOf, ha]
    rw [hdeeds]
    cases s.engines.instances[k]? <;> rfl

/-- In every run a search is recorded once at most, and a task that waits for its reply has
submitted its search. -/
theorem kept_after (es : List Occurrence) :
    Kept ((start settings table policy).after es) (journals settings table policy es) := by
  induction es using List.reverseRecOn with
  | nil => exact kept_start settings table policy
  | append_singleton es e ih =>
    rw [System.after_concat, journals_concat]
    cases hgo : ((start settings table policy).after es).service.aborted with
    | false =>
      exact ih.step (served_after hgo) (orderly_after_start settings table policy es)
        (numbered_after_start es) hgo
    | true =>
      obtain ⟨hstep, hshow⟩ := step_of_aborted hgo e
      have hsame : enter (journals settings table policy es)
          ((start settings table policy).after es) e = journals settings table policy es := by
        funext k
        rw [enter, hshow, List.append_nil]
      rwa [hstep, hsame]

end Run

/-! ## A submission in full -/

/-- A request at a difficulty. -/
def bareKings (num den : Nat) : Job :=
  .move "8/8/8/8/8/8/8/K6k w - - 0 1" (.ofRatio .double false num den)

/-- A call goes on some times. -/
def proceeds (id : TaskId) (times : Nat) : List Occurrence :=
  List.replicate times (.engine (.proceed id))

/-- A process prints, and its reader takes a step. -/
def prints (k : Nat) (text : String) : List Occurrence :=
  [.engine (.print k (text.toList.map fun c => c.toNat.toUInt8)), .engine (.read k)]

/-- A task has an engine launched and set up. -/
def opens (id : TaskId) (k : Nat) : List Occurrence :=
  .engine (.launched id none) :: proceeds id 1 ++ prints k "uciok\n" ++ proceeds id 8

/-- A task starts a game, sets the position and submits its search. -/
def plays (id : TaskId) (k : Nat) : List Occurrence :=
  proceeds id 2 ++ prints k "readyok\n" ++ proceeds id 7

/-- The first search that a new engine gets is recorded in its journal. -/
example : journalOf (start .stock .stock .respond) 0
    ([.start (bareKings 2 5), .run 0] ++ opens 0 0 ++ plays 0 0)
    |>.contains (.recorded ⟨1⟩) := by decide +kernel

end Sparring.Uci
