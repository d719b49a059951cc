import Sparring.Proofs.Service.Numbers

/-!
# Waiting for a reply

A request that has submitted its search waits for the reply in its mailbox. Its result is what
that reply says (`told_of_result`), a reply with an outcome comes from a completion of the search
itself (`completed_of_holds`), and as long as no completion comes at all the request waits and keeps
the gate (`Waits.after`).
-/

namespace Sparring.Service

/-! ## Results -/

/-- Whether a result is an error that no reply is needed for. -/
def Unprompted (r : Except ServiceError Move) : Prop :=
  (∃ causes, r = .error (.engine causes)) ∨ ∃ n, r = .error (.handoff (.alreadyArmed n))

/-- Whether a task has found a reply in its mailbox, with what the reply means for it. -/
def Finds (s : Service) (id : TaskId) (n : SearchId) (reply : Reply)
    (r : Except ServiceError Move) : Prop :=
  s.aborted = false ∧ ∃ p, s.stage? id = some (.thinking p n) ∧
    s.handoff.box? n = some (some reply) ∧ r = reply.result p.model

theorem reply_of_result {model : String} {reply : Reply} {m : Move}
    (h : .ok m = reply.result model) : reply = .ok (.move m) := by
  cases reply with
  | error e => cases h
  | ok o =>
    cases o with
    | move m' =>
      cases h
      rfl
    | noLegalMove | engineExited | unreadable => cases h

theorem unprompted_of_plain {r : Except ServiceError Move}
    (h : (Stage.finished (.move r)).Plain) : Unprompted r := Or.inl h

theorem Passage.result {s : Service} {id : TaskId} {job : Job} {stage : Stage}
    {c : Option CallResult} {turn : Turn} (hpass : Passage s job stage c turn)
    (ha : s.aborted = false) (hid : s.stage? id = some stage) {r : Except ServiceError Move}
    (h : turn.stage = .finished (.move r)) :
    Unprompted r ∨ ∃ n reply, s.Finds id n reply r := by
  cases hpass with
  | plain registry hin hno hplain =>
    cases (show _ = _ from h)
    exact Or.inl (unprompted_of_plain hplain)
  | armed | submitted => cases h
  | refused =>
    cases h
    exact Or.inl (Or.inr ⟨_, rfl⟩)
  | withdrawn causes =>
    have hplain := Stage.plain_failed job causes
    rw [show Stage.finished (job.failed causes) = _ from h] at hplain
    exact Or.inl (unprompted_of_plain hplain)
  | crashed message =>
    have hplain := Stage.plain_crashed job message
    rw [show Stage.finished (job.crashed message) = _ from h] at hplain
    exact Or.inl (unprompted_of_plain hplain)
  | @told p n reply hbox =>
    cases h
    exact Or.inr ⟨n, reply, ha, p, hid, hbox, rfl⟩

/-- A request has its result already, or ends on its own, or finds a reply. -/
theorem result_step {s : Service} {e : Event} {id : TaskId} {r : Except ServiceError Move}
    (h : (s.step e).1.stage? id = some (.finished (.move r))) :
    s.stage? id = some (.finished (.move r)) ∨ Unprompted r ∨ ∃ n reply, s.Finds id n reply r := by
  rcases stage?_step h with h | hplain | ⟨ha, job, old, c, turn, -, hid, hpass, hturn⟩
  · exact Or.inl h
  · exact Or.inr (Or.inl (unprompted_of_plain hplain))
  · exact Or.inr (hpass.result ha hid hturn)

/-- A request ends on its own, or with what it has found in its mailbox. -/
theorem told_of_result (settings : EngineSettings) (table : Table) (policy : FailurePolicy)
    {es : List Event} {id : TaskId} {r : Except ServiceError Move}
    (h : ((new settings table policy).after es).result? id = some (.move r)) :
    Unprompted r ∨ ∃ before n reply, before <+: es ∧
      ((new settings table policy).after before).Finds id n reply r := by
  rw [result?_eq_some] at h
  induction es using List.reverseRecOn with
  | nil => simp [new, stage?] at h
  | append_singleton es e ih =>
    have hmore := List.prefix_append es [e]
    rw [after_concat] at h
    rcases result_step h with h | h | ⟨n, reply, hfinds⟩
    · rcases ih h with h | ⟨before, n, reply, hbefore, hfinds⟩
      · exact Or.inl h
      · exact Or.inr ⟨before, n, reply, hbefore.trans hmore, hfinds⟩
    · exact Or.inl h
    · exact Or.inr ⟨es, n, reply, hmore, hfinds⟩

/-! ## Replies with an outcome -/

/-- Whether the mailbox of a search has a reply with an outcome. -/
def Holds (s : Service) (n : SearchId) (o : Outcome) : Prop :=
  s.handoff.box? n = some (some (.ok o))

theorem Passage.box {s : Service} (hs : s.handoff.Sound) {job : Job} {stage : Stage}
    {c : Option CallResult} {turn : Turn} (hpass : Passage s job stage c turn) {n : SearchId}
    {content : Option Reply} (h : turn.service.handoff.box? n = some content) :
    s.handoff.box? n = some content ∨ n.number = s.handoff.issued + 1 ∧ content = none ∨
      ∃ e, content = some (.error e) := by
  cases hpass with
  | plain | refused | submitted => exact Or.inl h
  | armed ha =>
    rw [Turn.to, hs.box?_arm ha] at h
    split at h
    next hn =>
      cases h
      exact Or.inr (Or.inl ⟨by rw [hn], rfl⟩)
    · exact Or.inl h
  | withdrawn causes =>
    rw [Turn.to, Handoff.box?_leave, Handoff.box?_disarm] at h
    split at h
    · cases h
    · split at h
      · obtain ⟨_, -, rfl⟩ := Option.map_eq_some_iff.1 h
        exact Or.inr (Or.inr ⟨_, rfl⟩)
      · exact Or.inl h
  | crashed | told =>
    simp only [Turn.to, Handoff.box?_leave] at h
    split at h
    · cases h
    · exact Or.inl h

/-- What is in a mailbox after a step was there, or the mailbox is new, or it holds an error, or a
completion of the search has put it there. -/
theorem box_step {s : Service} (hs : s.handoff.Sound) (e : Event) {n : SearchId}
    {content : Option Reply} (h : (s.step e).1.handoff.box? n = some content) :
    s.handoff.box? n = some content ∨ n.number = s.handoff.issued + 1 ∧ content = none ∨
      (∃ err, content = some (.error err)) ∨
      ∃ o, e = .completed ⟨some n, o⟩ ∧ content = some (.ok o) := by
  cases ha : s.aborted with
  | true =>
    rw [step_of_aborted ha] at h
    exact Or.inl h
  | false =>
    have hc := change_step ha e
    generalize s.step e = out at hc h
    cases hc with
    | idle | arrived | queued => exact Or.inl h
    | completed c =>
      rw [Handoff.box?_fulfill] at h
      split at h
      · obtain ⟨_, -, rfl⟩ := Option.map_eq_some_iff.1 h
        unfold Handoff.answer
        split
        next hc =>
          rw [← hc]
          exact Or.inr (Or.inr (Or.inr ⟨_, rfl, rfl⟩))
        · exact Or.inr (Or.inr (Or.inl ⟨_, rfl⟩))
      · exact Or.inl h
    | entered =>
      rw [handoff_move] at h
      exact Or.inl h
    | passed he ht hpass =>
      rw [handoff_move] at h
      rcases hpass.box hs h with h | h | h
      · exact Or.inl h
      · exact Or.inr (Or.inl h)
      · exact Or.inr (Or.inr (Or.inl h))

theorem holds_step {s : Service} (hs : s.handoff.Sound) (e : Event) {n : SearchId} {o : Outcome}
    (h : (s.step e).1.Holds n o) : s.Holds n o ∨ e = .completed ⟨some n, o⟩ := by
  rcases box_step hs e h with hold | ⟨-, hcontent⟩ | ⟨_, hcontent⟩ | ⟨o', he, hcontent⟩
  · exact Or.inl hold
  · cases hcontent
  · cases hcontent
  · cases hcontent
    exact Or.inr he

/-- An outcome in a mailbox comes from a completion of the search itself. -/
theorem completed_of_holds (settings : EngineSettings) (table : Table) (policy : FailurePolicy)
    {es : List Event} {n : SearchId} {o : Outcome}
    (h : ((new settings table policy).after es).Holds n o) : .completed ⟨some n, o⟩ ∈ es := by
  induction es using List.reverseRecOn with
  | nil => cases h
  | append_singleton es e ih =>
    rw [after_concat] at h
    rcases holds_step (sound_after Handoff.sound_new es) e h with h | rfl
    · exact List.mem_append_left _ (ih h)
    · simp

/-- A task that has a reply ends with it when its turn comes, unless the process ends. -/
theorem result_of_reply {s : Service} (ha : s.aborted = false) {id : TaskId} {p : Profile}
    {n : SearchId} {r : Reply} (hid : s.stage? id = some (.thinking p n))
    (hbox : s.handoff.box? n = some (some r)) :
    (s.step (.run id)).1.aborted = true ∨
      (s.step (.run id)).1.result? id = some (.move (r.result p.model)) := by
  have hc := change_step ha (.run id)
  generalize s.step (.run id) = out at hc
  generalize he : Event.run id = e at hc
  have hstage : ∀ {t}, s.tasks[id]? = some t → t.stage = .thinking p n := fun ht =>
    Option.some.inj ((stage?_of_task ht).symm.trans hid)
  -- Only a turn of the task itself looks into its mailbox.
  cases hc with
  | idle hidle =>
    subst he
    obtain ⟨t, ht, -⟩ := Option.map_eq_some_iff.1 hid
    exact absurd hbox ((hidle t ht).2 p n r (hstage ht))
  | queued ht hw | entered ht hw =>
    cases he
    cases hw.symm.trans (hstage ht)
  | @passed _ j t c turn heq ht hpass =>
    cases c with
    | some c => cases he.trans heq
    | none =>
      cases he.trans heq
      rw [hstage ht] at hpass
      cases hpass with
      | told hreply =>
        cases hbox.symm.trans hreply
        by_cases hf : Turn.Fatal ⟨.finished (.move (r.result p.model)),
            { s with handoff := (s.handoff.leave n).2 }, r.error?⟩
        · rw [move_of_fatal hf]
          exact Or.inl rfl
        · right
          rw [result?_eq_some, stage?_move, if_pos ⟨rfl, hf⟩]
          exact congrArg (Option.map _) hid
  | arrived | completed => cases he

/-! ## Waiting -/

/-- No waiter is left without a reply by a completion. -/
theorem not_pending_of_completed {s : Service} (hs : s.handoff.Sound) (ha : s.aborted = false)
    (c : Completion) (n : SearchId) : (s.step (.completed c)).1.handoff.box? n ≠ some none := by
  intro h
  have hc := change_step ha (.completed c)
  generalize s.step (.completed c) = out at hc h
  generalize he : Event.completed c = e at hc
  cases hc with
  | idle hidle =>
    subst he
    exact hidle
  | completed c' =>
    cases he
    rw [Handoff.box?_fulfill] at h
    split at h
    · obtain ⟨_, -, h⟩ := Option.map_eq_some_iff.1 h
      cases h
    next hne => exact hne (hs.armed_of_pending n h)
  | arrived | queued | entered => cases he
  | @passed _ _ _ r _ heq => cases r <;> cases he.trans heq

theorem not_pending_step {s : Service} (hs : s.handoff.Sound) (e : Event) {n : SearchId}
    (hn : n.number ≤ s.handoff.issued) (h : s.handoff.box? n ≠ some none) :
    (s.step e).1.handoff.box? n ≠ some none := by
  intro hpending
  rcases box_step hs e hpending with hold | ⟨hnew, -⟩ | ⟨_, hcontent⟩ | ⟨_, -, hcontent⟩
  · exact h hold
  · rw [hnew] at hn
    exact Nat.not_succ_le_self _ hn
  · cases hcontent
  · cases hcontent

theorem not_pending_after {s : Service} (hs : s.handoff.Sound) {n : SearchId}
    (hn : n.number ≤ s.handoff.issued) (h : s.handoff.box? n ≠ some none) (es : List Event) :
    (s.after es).handoff.box? n ≠ some none := by
  induction es generalizing s with
  | nil => exact h
  | cons e es ih =>
    rw [after_cons]
    exact ih (sound_step hs e) (Nat.le_trans hn (issued_step s e)) (not_pending_step hs e hn h)

/-- Whether every search that is going on has a waiter. -/
def Housed (s : Service) : Prop := ∀ n, s.Searching n → s.handoff.box? n ≠ none

theorem Passage.housed {s : Service} (hs : s.handoff.Sound) {job : Job} {stage : Stage}
    {c : Option CallResult} {turn : Turn} (hpass : Passage s job stage c turn) {n : SearchId}
    (hn : turn.stage.search? = some n) (h : stage.search? = some n → s.handoff.box? n ≠ none) :
    turn.service.handoff.box? n ≠ none := by
  cases hpass with
  | plain registry hin hno hplain =>
    rw [Turn.to, Stage.search?_of_plain hplain] at hn
    cases hn
  | armed ha =>
    cases hn
    rw [Turn.to, hs.box?_arm ha, if_pos rfl]
    exact Option.some_ne_none _
  | submitted => exact h hn
  | refused | withdrawn | crashed | told => cases hn

theorem housed_step {s : Service} (ho : s.Orderly) (hs : s.handoff.Sound) (h : s.Housed)
    {e : Event} (ha' : (s.step e).1.aborted = false) : (s.step e).1.Housed := by
  cases ha : s.aborted with
  | true => rwa [step_of_aborted ha]
  | false =>
    have hc := change_step ha e
    generalize s.step e = out at hc ha'
    cases hc with
    | idle | queued => exact h
    | completed c =>
      intro n hn
      rw [Handoff.box?_fulfill]
      split
      · rw [Ne, Option.map_eq_none_iff]
        exact h n hn
      · exact h n hn
    | arrived job =>
      rintro n ⟨j, stage, hj, hn⟩
      rw [stage?_arrive] at hj
      split at hj
      · cases hj
        cases hn
      · exact h n ⟨j, stage, hj, hn⟩
    | @entered id t ht hw hp =>
      intro n hn
      have hfirst := (Alone.searching_move (ho.alone_of_poll hp) (stage?_of_task ht)
        (by exact not_fatal_to _ _) n).1 hn
      simp only [Turn.to, Stage.search?_of_plain (s.plain_firstStage t.job)] at hfirst
      cases hfirst
    | @passed e id t r turn he ht hpass =>
      have hf : ¬turn.Fatal := by
        intro hf
        rw [move_of_fatal hf] at ha'
        cases ha'
      have hid := stage?_of_task ht
      intro n hn
      -- Only the task that moves on has a search, and a passage houses that.
      rw [(hpass.alone ho hid).searching_move ((hpass.stage?_eq id).trans hid) hf] at hn
      rw [handoff_move]
      exact hpass.housed hs hn fun hold => h n ⟨id, t.stage, hid, hold⟩

theorem housed_after (settings : EngineSettings) (table : Table) (policy : FailurePolicy)
    {es : List Event} (ha : ((new settings table policy).after es).aborted = false) :
    ((new settings table policy).after es).Housed := by
  induction es using List.reverseRecOn with
  | nil =>
    rintro n ⟨id, stage, hid, -⟩
    simp [new, stage?] at hid
  | append_singleton es e ih =>
    rw [after_concat] at ha ⊢
    refine housed_step (orderly_after (orderly_new settings table policy) es)
      (sound_after Handoff.sound_new es) (ih ?_) ha
    cases hgo : ((new settings table policy).after es).aborted with
    | false => rfl
    | true =>
      rw [step_of_aborted hgo] at ha
      rw [hgo] at ha
      exact ha

/-- Whether a task inside the gate waits for the reply to its search. -/
structure Waits (s : Service) (id : TaskId) (n : SearchId) : Prop where
  going : s.aborted = false
  thinking : ∃ p, s.stage? id = some (.thinking p n)
  waiting : s.handoff.box? n = some none

/-- A task waits as long as no completion comes. -/
theorem Waits.step {s : Service} {id : TaskId} {n : SearchId} (h : s.Waits id n)
    (ho : s.Orderly) {e : Event} (he : ∀ c, e ≠ .completed c) : (s.step e).1.Waits id n := by
  obtain ⟨ha, ⟨p, hid⟩, hbox⟩ := h
  have hc := change_step ha e
  generalize s.step e = out at hc
  cases hc with
  | idle | queued => exact ⟨ha, ⟨p, hid⟩, hbox⟩
  | completed c => exact absurd rfl (he c)
  | arrived job =>
    refine ⟨ha, ⟨p, ?_⟩, hbox⟩
    rw [stage?_arrive]
    split
    next hj =>
      rw [hj, stage?_next] at hid
      cases hid
    · exact hid
  | @entered j t ht hw hp =>
    -- The task that waits has access, so nobody else is let in.
    cases Visitor.task.inj (Gate.eq_of_poll hp (ho id _ hid rfl))
    have hstage := Option.some.inj ((stage?_of_task ht).symm.trans hid)
    rw [hw] at hstage
    cases hstage
  | @passed _ j t c turn heq ht hpass =>
    cases ho.inside_unique (stage?_of_task ht) hpass.inside hid rfl
    have hstage := Option.some.inj ((stage?_of_task ht).symm.trans hid)
    rw [hstage] at hpass
    cases hpass with
    | plain registry hin hno => cases hno
    | told hreply =>
      rw [hbox] at hreply
      cases hreply

theorem Waits.after {s : Service} {id : TaskId} {n : SearchId} (h : s.Waits id n)
    (ho : s.Orderly) {es : List Event} (hes : ∀ c, .completed c ∉ es) :
    (s.after es).Waits id n ∧ (s.after es).gate.hasAccess (.task id) = true := by
  have hwaits : (s.after es).Waits id n := by
    induction es using List.reverseRecOn with
    | nil => exact h
    | append_singleton es e ih =>
      rw [after_concat]
      refine (ih fun c hc => hes c (List.mem_append_left _ hc)).step (orderly_after ho es) ?_
      rintro c rfl
      exact hes c (by simp)
  obtain ⟨p, hid⟩ := hwaits.thinking
  exact ⟨hwaits, orderly_after ho es id _ hid rfl⟩

end Sparring.Service
