import Sparring.Proofs.Service.Admission
import Sparring.Proofs.Service.Stranded
import Sparring.Proofs.Service.Waiting

/-!
# The first completion decides

Once a request has armed the slot, its fate hangs on two things: how the submission of its search
comes back, and which completion is the first to come, before or after that. A submission that
fails is the end of the request, whatever has come meanwhile. After one that succeeds the first
completion is what the request is told at its next turn, be it for its own search or not
(`verdict`); those that come later change nothing.

`first_completion_decides` says so of every run. The invariant (`Follows`) says for each moment
after the arming what the stage of the request, its mailbox and the slot are.
-/

namespace Sparring.Service

/-! ## What has come since the arming -/

/-- The completion that an event is. -/
def Event.completion? : Event → Option Completion
  | .completed c => some c
  | _ => none

/-- The result that an event brings back to a task. -/
def Event.result? (id : TaskId) : Event → Option CallResult
  | .returned j r => if j = id then some r else none
  | _ => none

/-- The first completion in a row of events. -/
def firstCompletion (es : List Event) : Option Completion := es.findSome? Event.completion?

/-- How the first call of a task comes back in a row of events. -/
def firstReturn (id : TaskId) (es : List Event) : Option CallResult :=
  es.findSome? (Event.result? id)

/-- Whether a task is given a turn after its call has come back with success and a completion has
come. -/
def Told (id : TaskId) (es : List Event) : Prop :=
  ∃ xs ys, es = xs ++ .run id :: ys ∧ firstReturn id xs = some .ok ∧ firstCompletion xs ≠ none

theorem firstCompletion_concat (es : List Event) (e : Event) :
    firstCompletion (es ++ [e]) = (firstCompletion es).or e.completion? := by
  simp [firstCompletion, List.findSome?_append]

theorem firstReturn_concat (id : TaskId) (es : List Event) (e : Event) :
    firstReturn id (es ++ [e]) = (firstReturn id es).or (e.result? id) := by
  simp [firstReturn, List.findSome?_append]

theorem told_concat {id : TaskId} {es : List Event} {e : Event} :
    Told id (es ++ [e]) ↔ Told id es ∨
      e = .run id ∧ firstReturn id es = some .ok ∧ firstCompletion es ≠ none := by
  constructor
  · rintro ⟨xs, ys, h, hret, hcomp⟩
    rcases concat_eq_append_cons.1 h with ⟨rfl, he, -⟩ | ⟨rest, rfl, rfl⟩
    · exact Or.inr ⟨he, hret, hcomp⟩
    · exact Or.inl ⟨xs, rest, rfl, hret, hcomp⟩
  · rintro (⟨xs, ys, rfl, hret, hcomp⟩ | ⟨rfl, hret, hcomp⟩)
    · exact ⟨xs, ys ++ [e], by simp, hret, hcomp⟩
    · exact ⟨es, [], rfl, hret, hcomp⟩

/-- Whoever has been told knows how its call has come back, and a completion has come. -/
theorem Told.known {id : TaskId} {es : List Event} (h : Told id es) :
    firstReturn id es = some .ok ∧ firstCompletion es ≠ none := by
  obtain ⟨xs, ys, rfl, hret, hcomp⟩ := h
  obtain ⟨c, hc⟩ := Option.ne_none_iff_exists'.1 hcomp
  unfold firstReturn firstCompletion at *
  rw [List.findSome?_append, List.findSome?_append, hret, hc]
  exact ⟨rfl, Option.some_ne_none c⟩

/-! ## While a search goes on -/

/-- Whether a request is at a stage with the search `n`, for which a first completion may have
come. -/
structure Searches (s : Service) (id : TaskId) (stage : Stage) (n : SearchId)
    (first : Option Completion) : Prop where
  stage_eq : s.stage? id = some stage
  search : stage.search? = some n
  box : s.handoff.box? n = some (first.map (Handoff.answer n))
  slot : s.handoff.armed = if first.isSome then none else some n

/-- The first completion is put into the mailbox and empties the slot; others go nowhere. -/
theorem Searches.fulfill {s s' : Service} {id : TaskId} {stage : Stage} {n : SearchId}
    {first : Option Completion} (h : s.Searches id stage n first) {c : Completion}
    (hstage : s'.stage? id = s.stage? id) (hhandoff : s'.handoff = (s.handoff.fulfill c).2) :
    s'.Searches id stage n (first.or (some c)) := by
  obtain ⟨hid, hn, hbox, hslot⟩ := h
  refine ⟨hstage.trans hid, hn, ?_, ?_⟩
  · rw [hhandoff, Handoff.box?_fulfill, hbox, hslot]
    cases first <;> simp
  · rw [hhandoff, Handoff.armed_fulfill]
    cases first <;> rfl

/-- A search goes on until the request has its turn: its call comes back, or it finds a reply. -/
theorem Searches.step {s : Service} {id : TaskId} {stage : Stage} {n : SearchId}
    {first : Option Completion} (h : s.Searches id stage n first) (ho : s.Orderly)
    (ha : s.aborted = false) {e : Event}
    (hreturn : ∀ r, e = .returned id r → stage.call? = none)
    (hrun : e = .run id → stage.call? = none → first = none) :
    (s.step e).1.Searches id stage n (first.or e.completion?) := by
  have hid := h.stage_eq
  have hin := Stage.isInside_of_search? h.search
  have hc := change_step ha e
  generalize s.step e = out at hc
  cases hc with
  | completed c => exact h.fulfill rfl rfl
  | idle hidle =>
    have hno : e.completion? = none := by
      cases e with
      | completed => exact hidle.elim
      | start | run | returned | hangUp => rfl
    rwa [hno, Option.or_none]
  | arrived job =>
    refine (Option.or_none (o := first)).symm ▸ ⟨?_, h.search, h.box, h.slot⟩
    rw [stage?_arrive, if_neg ?_, hid]
    rintro rfl
    rw [stage?_next] at hid
    cases hid
  | queued => exact (Option.or_none (o := first)).symm ▸ ⟨hid, h.search, h.box, h.slot⟩
  | @entered j t ht hw hp =>
    -- The request has access, so nobody else is let in.
    cases Visitor.task.inj (Gate.eq_of_poll hp (ho id stage hid hin))
    rw [stage?_of_task ht, hw] at hid
    cases hid
    cases hin
  | @passed _ j t r turn he ht hpass =>
    cases ho.inside_unique (stage?_of_task ht) hpass.inside hid hin
    rw [Option.some.inj ((stage?_of_task ht).symm.trans hid)] at hpass
    have hn := h.search
    cases hpass with
    | plain registry hin' hno =>
      rw [hn] at hno
      cases hno
    | armed | refused => cases hn
    | submitted | withdrawn | crashed => cases hreturn _ he
    | told hreply =>
      cases hn
      have hbox := h.box
      rw [hrun he rfl, hreply] at hbox
      cases hbox

theorem finished_step {s : Service} {id : TaskId} {r : JobResult}
    (h : s.stage? id = some (.finished r)) (e : Event) :
    (s.step e).1.stage? id = some (.finished r) := by
  cases ha : s.aborted with
  | true => rwa [step_of_aborted ha]
  | false =>
    have hc := change_step ha e
    generalize s.step e = out at hc
    cases hc with
    | idle | completed | queued => exact h
    | arrived job =>
      rw [stage?_arrive, if_neg ?_, h]
      rintro rfl
      rw [stage?_next] at h
      cases h
    | @entered j t ht hw hp =>
      rw [stage?_move, if_neg ?_]
      · exact h
      · rintro ⟨rfl, -⟩
        rw [stage?_of_task ht, hw] at h
        cases h
    | @passed _ j t r turn he ht hpass =>
      rw [stage?_move, if_neg ?_, hpass.stage?_eq, h]
      rintro ⟨rfl, -⟩
      have hin := hpass.inside
      rw [Option.some.inj ((stage?_of_task ht).symm.trans h)] at hin
      cases hin

theorem result?_after {s : Service} {id : TaskId} {r : JobResult} (h : s.result? id = some r)
    (es : List Event) : (s.after es).result? id = some r := by
  rw [result?_eq_some] at h ⊢
  exact after_of_step (P := fun s => s.stage? id = some (.finished r))
    (fun _ e h => finished_step h e) h es

/-! ## What becomes of a request -/

/-- What a completion means for the request that has armed `n`, if it is the first to come. -/
def verdict (model : String) (n : SearchId) (c : Completion) : Except ServiceError Move :=
  if c.search = some n then
    match c.outcome with
    | .move m => .ok m
    | .noLegalMove => .error .noLegalMove
    | .engineExited => .error (.engine ["engine for " ++ model ++ " exited during search"])
    | .unreadable reason =>
      .error (.engine ["engine for " ++ model ++ " reported an unreadable move: " ++ reason])
  else .error (.handoff (.mismatch n c.search))

theorem result_answer (model : String) (n : SearchId) (c : Completion) :
    (Handoff.answer n c).result model = verdict model n c := by
  unfold Handoff.answer verdict
  split
  · cases c.outcome <;> rfl
  · rfl

/-- How a request stands that has armed `n`, after a row of events. -/
inductive Follows (s : Service) (id : TaskId) (p : Profile) (n : SearchId) (es : List Event) : Prop
  | submitting : firstReturn id es = none →
    s.Searches id (.submitting p n) n (firstCompletion es) → Follows s id p n es
  | thinking : firstReturn id es = some .ok → ¬Told id es →
    s.Searches id (.thinking p n) n (firstCompletion es) → Follows s id p n es
  | told {c : Completion} : Told id es → firstReturn id es = some .ok →
    firstCompletion es = some c →
    s.stage? id = some (.finished (.move (verdict p.model n c))) → Follows s id p n es
  | failed {causes : Causes} : firstReturn id es = some (.failed causes) →
    s.stage? id = some (.finished (.move (.error (.engine causes)))) → Follows s id p n es
  | crashed {message : String} : firstReturn id es = some (.crashed message) →
    s.stage? id = some (.finished (.move (.error (.engine
      ["move computation failed: task N panicked with message " ++ quoteText message])))) →
    Follows s id p n es

section Step

variable {s : Service} {id : TaskId} {p : Profile} {n : SearchId} {es : List Event}

theorem firstReturn_of_ne {e : Event} (he : ∀ r, e ≠ .returned id r) :
    firstReturn id (es ++ [e]) = firstReturn id es := by
  have hno : e.result? id = none := by
    cases e with
    | returned j r =>
      refine if_neg ?_
      rintro rfl
      exact he r rfl
    | start | run | completed | hangUp => rfl
  rw [firstReturn_concat, hno, Option.or_none]

theorem firstReturn_of_some {e : Event} {r : CallResult} (h : firstReturn id es = some r) :
    firstReturn id (es ++ [e]) = some r := by
  rw [firstReturn_concat, h, Option.some_or]

theorem Follows.submitting_returned (hret : firstReturn id es = none)
    (hs : s.Searches id (.submitting p n) n (firstCompletion es)) {fen : String}
    {difficulty : Double} (hjob : s.job? id = some (.move fen difficulty)) (ha : s.aborted = false)
    (r : CallResult) : (s.step (.returned id r)).1.Follows id p n (es ++ [.returned id r]) := by
  have hreturned : firstReturn id (es ++ [.returned id r]) = some r := by
    rw [firstReturn_concat, hret]
    simp [Event.result?]
  have hfirst : firstCompletion (es ++ [.returned id r]) = firstCompletion es := by
    rw [firstCompletion_concat, Event.completion?, Option.or_none]
    exact fun _ => Event.noConfusion
  obtain ⟨t, ht, hstage⟩ := Option.map_eq_some_iff.1 hs.stage_eq
  have hmove : t.job = .move fen difficulty := Option.some.inj ((job?_of_task ht).symm.trans hjob)
  have hstep := step_returned ha ht r
  rw [hmove, hstage] at hstep
  have hmoved : ∀ stage s', s'.tasks = s.tasks →
      (move id (.to stage s')).1.stage? id = some stage := by
    intro stage s' htasks
    rw [stage?_move, if_pos ⟨rfl, not_fatal_to _ _⟩]
    simp [Turn.to, stage?, htasks, ht]
  rw [hstep]
  cases r with
  | ok =>
    refine .thinking hreturned ?_ ?_
    · rw [told_concat]
      rintro (htold | ⟨he, -⟩)
      · rw [htold.known.1] at hret
        cases hret
      · cases he
    · rw [hfirst]
      refine ⟨hmoved _ s rfl, rfl, ?_, ?_⟩
      · exact (congrArg (Handoff.box? · n) (handoff_move _ _)).trans hs.box
      · exact (congrArg Handoff.armed (handoff_move _ _)).trans hs.slot
  | failed causes => exact .failed hreturned (hmoved _ _ rfl)
  | crashed message => exact .crashed hreturned (hmoved _ _ rfl)

/-- A step keeps track of a request, as long as the process goes on. -/
theorem Follows.step (h : s.Follows id p n es) (ho : s.Orderly) {fen : String}
    {difficulty : Double} (hjob : s.job? id = some (.move fen difficulty)) (ha : s.aborted = false)
    {e : Event} (ha' : (s.step e).1.aborted = false) :
    (s.step e).1.Follows id p n (es ++ [e]) := by
  -- In each state one event takes the request further, and all others leave it where it is.
  cases h with
  | submitting hret hs =>
    by_cases he : ∃ r, e = .returned id r
    · obtain ⟨r, rfl⟩ := he
      exact submitting_returned hret hs hjob ha r
    · have hne : ∀ r, e ≠ .returned id r := fun r hr => he ⟨r, hr⟩
      refine .submitting ((firstReturn_of_ne hne).trans hret) ?_
      rw [firstCompletion_concat]
      exact hs.step ho ha (fun r hr => absurd hr (hne r)) fun _ hno => by cases hno
  | thinking hret hno hs =>
    by_cases hturn : e = .run id ∧ firstCompletion es ≠ none
    · obtain ⟨rfl, hfirst⟩ := hturn
      obtain ⟨c, hc⟩ := Option.ne_none_iff_exists'.1 hfirst
      have hbox := hs.box
      rw [hc] at hbox
      refine .told (told_concat.2 (Or.inr ⟨rfl, hret, hfirst⟩)) (firstReturn_of_some hret)
        (by rw [firstCompletion_concat, hc, Option.some_or]) ?_
      rcases result_of_reply ha hs.stage_eq hbox with hgone | hresult
      · rw [ha'] at hgone
        cases hgone
      · rwa [result?_eq_some, result_answer] at hresult
    · refine .thinking (firstReturn_of_some hret) ?_ ?_
      · rw [told_concat]
        rintro (h | ⟨he, -, hfirst⟩)
        · exact hno h
        · exact hturn ⟨he, hfirst⟩
      · rw [firstCompletion_concat]
        refine hs.step ho ha (fun _ _ => rfl) fun he _ => ?_
        by_contra hfirst
        exact hturn ⟨he, hfirst⟩
  | told htold hret hfirst hfin =>
    refine .told (told_concat.2 (Or.inl htold)) (firstReturn_of_some hret) ?_ (finished_step hfin e)
    rw [firstCompletion_concat, hfirst, Option.some_or]
  | failed hret hfin => exact .failed (firstReturn_of_some hret) (finished_step hfin e)
  | crashed hret hfin => exact .crashed (firstReturn_of_some hret) (finished_step hfin e)

end Step

/-! ## From the arming on -/

/-- Whether the slot is empty and a request whose position is being set arms it next. -/
structure Arms (s : Service) (id : TaskId) (p : Profile) (n : SearchId) : Prop where
  going : s.aborted = false
  positioning : ∃ t fen difficulty fen', s.tasks[id]? = some t ∧ t.job = .move fen difficulty ∧
    t.stage = .positioning p fen'
  empty : s.handoff.armed = none
  number : n.number = s.handoff.issued + 1

theorem Arms.follows {s : Service} {id : TaskId} {p : Profile} {n : SearchId} (h : s.Arms id p n)
    (hs : s.handoff.Sound) : (s.step (.returned id .ok)).1.Follows id p n [] := by
  obtain ⟨ha, ⟨t, fen, difficulty, fen', ht, hjob, hstage⟩, hempty, hnumber⟩ := h
  obtain rfl : n = ⟨s.handoff.issued + 1⟩ := by rw [← hnumber]
  have hstep : s.step (.returned id .ok) = move id (s.arm p) := by
    rw [step_returned ha ht, hjob, hstage]
    rfl
  have hturn : s.arm p = .to (.submitting p ⟨s.handoff.issued + 1⟩)
      { s with handoff := s.handoff.arm.2 } := by
    rw [arm, Handoff.arm_of_empty hempty]
  rw [hstep, hturn]
  refine .submitting rfl ⟨?_, rfl, ?_, ?_⟩
  · rw [stage?_move, if_pos ⟨rfl, not_fatal_to _ _⟩]
    exact congrArg (Option.map _) (stage?_of_task ht)
  · rw [handoff_move, Turn.to, hs.box?_arm hempty, if_pos rfl]
    rfl
  · rw [handoff_move, Turn.to, Handoff.arm_of_empty hempty]
    rfl

theorem going_of_step {s : Service} {e : Event} (h : (s.step e).1.aborted = false) :
    s.aborted = false := by
  cases ha : s.aborted with
  | false => rfl
  | true => rw [step_of_aborted ha, ha] at h; cases h

theorem follows_after {s : Service} {id : TaskId} {p : Profile} {n : SearchId} {fen : String}
    {difficulty : Double} (h : s.Follows id p n []) (ho : s.Orderly)
    (hjob : s.job? id = some (.move fen difficulty)) {es : List Event}
    (ha : (s.after es).aborted = false) : (s.after es).Follows id p n es := by
  induction es using List.reverseRecOn with
  | nil => exact h
  | append_singleton es e ih =>
    rw [after_concat] at ha ⊢
    have hgo := going_of_step ha
    exact (ih hgo).step (orderly_after ho es) (job?_after hjob es) hgo ha

/-- From its arming on a run keeps track of a request. -/
theorem Arms.follows_after {settings : EngineSettings} {table : Table} {policy : FailurePolicy}
    {before later : List Event} {id : TaskId} {p : Profile} {n : SearchId}
    (h : ((new settings table policy).after before).Arms id p n)
    (ha : ((new settings table policy).after
      (before ++ .returned id .ok :: later)).aborted = false) :
    ((new settings table policy).after
      (before ++ .returned id .ok :: later)).Follows id p n later := by
  obtain ⟨t, fen, difficulty, -, ht, hjob, -⟩ := h.positioning
  have hjob' := job?_after ((job?_of_task ht).trans (congrArg some hjob)) [.returned id .ok]
  rw [after_cons, after_nil] at hjob'
  rw [after_append, after_cons] at ha ⊢
  exact Service.follows_after (h.follows (sound_after Handoff.sound_new before))
    (orderly_step (orderly_after (orderly_new settings table policy) before) _) hjob' ha

/-! ## What a request is never told -/

/-- Whether all replies in the mailboxes are of a kind. -/
def Replies (P : Reply → Prop) (s : Service) : Prop :=
  ∀ n r, s.handoff.box? n = some (some r) → P r

/-- A turn puts no reply into a mailbox: the waiter of a search that is given up leaves before it
learns of that. -/
theorem Passage.replies {P : Reply → Prop} {s : Service} (hs : s.handoff.Sound) (h : s.Replies P)
    {job : Job} {stage : Stage} {c : Option CallResult} {turn : Turn}
    (hpass : Passage s job stage c turn) : turn.service.Replies P := by
  intro k r hbox
  cases hpass with
  | plain | refused | submitted => exact h k r hbox
  | armed hempty =>
    rw [Turn.to, hs.box?_arm hempty] at hbox
    split at hbox
    · cases hbox
    · exact h k r hbox
  | @withdrawn p n causes =>
    rw [Turn.to, Handoff.box?_leave] at hbox
    split at hbox
    · cases hbox
    next hk =>
      rw [Handoff.box?_disarm, if_neg fun hk' => hk hk'.2] at hbox
      exact h k r hbox
  | crashed | told =>
    simp only [Turn.to, Handoff.box?_leave] at hbox
    split at hbox
    · cases hbox
    · exact h k r hbox

/-- The replies in the mailboxes stay of a kind if those to completions are. -/
theorem replies_step {P : Reply → Prop} {s : Service} (hs : s.handoff.Sound) (h : s.Replies P)
    {e : Event} (hP : ∀ c n, e = .completed c → s.handoff.armed = some n → P (Handoff.answer n c)) :
    (s.step e).1.Replies P := by
  cases ha : s.aborted with
  | true => rwa [step_of_aborted ha]
  | false =>
    have hc := change_step ha e
    generalize s.step e = out at hc
    cases hc with
    | idle | arrived | queued => exact h
    | completed c =>
      intro k r hbox
      rw [Handoff.box?_fulfill] at hbox
      split at hbox
      next harmed =>
        obtain ⟨_, -, hr⟩ := Option.map_eq_some_iff.1 hbox
        rw [← Option.some.inj hr]
        exact hP c k rfl harmed
      · exact h k r hbox
    | entered =>
      intro k r hbox
      rw [handoff_move] at hbox
      exact h k r hbox
    | passed he ht hpass =>
      intro k r hbox
      rw [handoff_move] at hbox
      exact hpass.replies hs h k r hbox

/-- No waiter is ever told that its search was given up. -/
theorem unabandoned_after (settings : EngineSettings) (table : Table) (policy : FailurePolicy)
    (es : List Event) :
    ((new settings table policy).after es).Replies fun r => ∀ m, r ≠ .error (.abandoned m) := by
  induction es using List.reverseRecOn with
  | nil =>
    intro n r hbox
    cases hbox
  | append_singleton es e ih =>
    rw [after_concat]
    refine replies_step (sound_after Handoff.sound_new es) ih ?_
    intro c n _ _ m
    unfold Handoff.answer
    split <;> exact fun h => by cases h

/-- A handoff error in a result tells of another armed search, or of a completion that was none of
the request's own. -/
theorem lawful_of_result {settings : EngineSettings} {table : Table} {policy : FailurePolicy}
    {es : List Event} {id : TaskId} {e : HandoffError}
    (h : ((new settings table policy).after es).result? id = some (.move (.error (.handoff e)))) :
    (∃ m, e = .alreadyArmed m) ∨ ∃ n got, e = .mismatch n got := by
  rcases told_of_result settings table policy h with (⟨causes, hr⟩ | ⟨m, hr⟩) |
      ⟨xs, n, reply, -, -, p, -, hbox, hr⟩
  · cases hr
  · cases hr
    exact Or.inl ⟨m, rfl⟩
  · rcases (sound_after Handoff.sound_new xs).fits n reply hbox with
      ⟨o, rfl⟩ | ⟨got, rfl⟩ | rfl
    · cases o <;> cases hr
    · cases hr
      exact Or.inr ⟨n, got, rfl⟩
    · exact absurd rfl (unabandoned_after settings table policy xs n _ hbox n)

/-! ## Every run -/

/-- How the fate of a request that has armed `n` for the engine of a profile is decided by the
events since. -/
structure Decided (s : Service) (id : TaskId) (p : Profile) (n : SearchId) (es : List Event) :
    Prop where
  /-- Until its submission has come back, the request has no result. -/
  unreturned : firstReturn id es = none → s.result? id = none
  /-- A submission that fails is the result, whatever has come meanwhile. -/
  failed : ∀ causes, firstReturn id es = some (.failed causes) →
    s.result? id = some (.move (.error (.engine causes)))
  /-- It leaves the slot empty. -/
  emptied : ∀ xs causes, es = xs ++ [.returned id (.failed causes)] → firstReturn id xs = none →
    s.handoff.armed = none
  /-- After a submission that has succeeded the request waits for the first completion. -/
  undecided : firstReturn id es = some .ok → firstCompletion es = none → s.result? id = none
  /-- It takes its result from the first completion, at its next turn. -/
  decided : ∀ c, firstReturn id es = some .ok → firstCompletion es = some c →
    ∀ r, s.result? id = some r ↔ Told id es ∧ r = .move (verdict p.model n c)
  /-- Nothing changes its result. -/
  final : ∀ r more, s.result? id = some r → (s.after more).result? id = some r

/-- What a run says about the results of requests. -/
structure ResultAccount (s : Service) (es : List Event) : Prop where
  decided : ∀ before id p n later, es = before ++ .returned id .ok :: later →
    (s.after before).Arms id p n → (s.after es).aborted = false →
    Decided (s.after es) id p n later
  /-- No request is told that no search was armed or that its own was given up. -/
  lawful : ∀ id e, (s.after es).result? id = some (.move (.error (.handoff e))) →
    (∃ m, e = .alreadyArmed m) ∨ ∃ n got, e = .mismatch n got

theorem result?_of_inside {s : Service} {id : TaskId} {stage : Stage}
    (h : s.stage? id = some stage) (hin : stage.isInside = true) : s.result? id = none := by
  cases hr : s.result? id with
  | none => rfl
  | some r =>
    rw [result?_eq_some, h] at hr
    cases hr
    cases hin

theorem Searches.armed_of_failed {s : Service} {id : TaskId} {p : Profile} {n : SearchId}
    {first : Option Completion} (h : s.Searches id (.submitting p n) n first)
    (ha : s.aborted = false) (causes : Causes) :
    (s.step (.returned id (.failed causes))).1.handoff.armed = none := by
  obtain ⟨t, ht, hstage⟩ := Option.map_eq_some_iff.1 h.stage_eq
  have hstep := step_returned ha ht (.failed causes)
  rw [hstage] at hstep
  rw [hstep]
  refine (congrArg Handoff.armed (handoff_move id _)).trans ?_
  simp only [Turn.to, Handoff.armed_leave, Handoff.armed_disarm, h.slot]
  cases first <;> simp

theorem Follows.decided {s : Service} {id : TaskId} {p : Profile} {n : SearchId} {es : List Event}
    (h : s.Follows id p n es)
    (hemptied : ∀ xs causes, es = xs ++ [.returned id (.failed causes)] → firstReturn id xs = none →
      s.handoff.armed = none) : Decided s id p n es := by
  -- What has come back and what has been completed tell the states of a request apart.
  refine ⟨fun hnone => ?_, fun causes hfailed => ?_, hemptied, fun hok hnone => ?_,
    fun c hok hc r => ?_, fun r more hr => result?_after hr more⟩
  · cases h with
    | submitting _ hs => exact result?_of_inside hs.stage_eq rfl
    | thinking hret | told _ hret | failed hret | crashed hret => cases hnone.symm.trans hret
  · cases h with
    | failed hret hfin =>
      cases hret.symm.trans hfailed
      exact result?_eq_some.2 hfin
    | submitting hret | thinking hret | told _ hret | crashed hret => cases hfailed.symm.trans hret
  · cases h with
    | thinking _ _ hs => exact result?_of_inside hs.stage_eq rfl
    | told _ _ hfirst => cases hnone.symm.trans hfirst
    | submitting hret | failed hret | crashed hret => cases hok.symm.trans hret
  · cases h with
    | thinking _ hno hs =>
      rw [result?_of_inside hs.stage_eq rfl]
      exact ⟨fun h => (by cases h), fun h => absurd h.1 hno⟩
    | told htold _ hfirst hfin =>
      cases hc.symm.trans hfirst
      rw [result?_eq_some.2 hfin]
      exact ⟨fun h => ⟨htold, (Option.some.inj h).symm⟩, fun h => congrArg some h.2.symm⟩
    | submitting hret | failed hret | crashed hret => cases hok.symm.trans hret

/-- The fate of a request is decided by how its submission comes back and by the first completion
after the arming. -/
theorem first_completion_decides (settings : EngineSettings) (table : Table)
    (policy : FailurePolicy) (es : List Event) :
    ResultAccount (new settings table policy) es := by
  refine ⟨?_, fun id e h => lawful_of_result h⟩
  rintro before id p n later rfl harms ha
  refine (harms.follows_after ha).decided ?_
  rintro xs causes rfl hret
  have hsplit : before ++ .returned id .ok :: (xs ++ [.returned id (.failed causes)]) =
      (before ++ .returned id .ok :: xs) ++ [.returned id (.failed causes)] := by simp
  rw [hsplit, after_concat] at ha ⊢
  have hgo := going_of_step ha
  cases harms.follows_after hgo with
  | submitting _ hs => exact hs.armed_of_failed hgo causes
  | thinking hret' | told _ hret' | failed hret' | crashed hret' => cases hret.symm.trans hret'

/-- A stray completion comes while the search is being submitted, and the right one after that. -/
def strayRun : List Event :=
  [.start bareKings, .run 0] ++ List.replicate 6 (.returned 0 .ok) ++
    [.completed ⟨none, .noLegalMove⟩, .returned 0 .ok, .completed ⟨some ⟨1⟩, .noLegalMove⟩, .run 0]

example : ((new .stock .stock .respond).after strayRun).result? 0 =
    some (.move (.error (.handoff (.mismatch ⟨1⟩ none)))) := rfl

end Sparring.Service
