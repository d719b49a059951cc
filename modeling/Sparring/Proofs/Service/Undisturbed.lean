import Sparring.Proofs.Service.Course

/-!
# A service whose rules are kept

A rule of the handoff is broken when a search is to be armed while another one is, or when a
completion comes that is not for the armed search. As long as no submission crashes, the armed
search belongs to a task inside the gate, so nobody who comes to arm finds another search; and a
reply is an outcome as long as every completion has been for the armed search.

Such a service is *undisturbed*. `touches_step` lists the four things that a step of it can do to
the slot, with the calls that go with them.
-/

namespace Sparring.Service

/-- Whether no rule has been broken and none is about to be. -/
structure Undisturbed (s : Service) : Prop where
  going : s.aborted = false
  /-- The armed search belongs to a task. -/
  owned : ∀ n, s.handoff.armed = some n → s.Searching n
  /-- The replies in the mailboxes are outcomes. -/
  unerring : s.Replies fun r => ∃ o, r = .ok o

/-- Whether an effect is not the submission of a search. -/
def Submitless (effect : Option Effect) : Prop :=
  ∀ id model n limits, effect ≠ some (.call id (.go model n limits))

/-- What a step does to the slot, with the call that it brings about. -/
inductive Touches (s : Service) : Event → Service × Option Effect → Prop
  | nothing {e : Event} {out : Service × Option Effect} :
      out.1.handoff.armed = s.handoff.armed → Submitless out.2 → Touches s e out
  | emptied {c : Completion} {out : Service × Option Effect} :
      out.1.handoff.armed = none → Submitless out.2 → Touches s (.completed c) out
  | armed {id : TaskId} {p : Profile} {n : SearchId} {out : Service × Option Effect} :
      s.handoff.armed = none → out.1.handoff.armed = some n →
      out.2 = some (.call id (.go p.model n p.limits)) → Touches s (.returned id .ok) out
  | withdrawn {id : TaskId} {p : Profile} {n : SearchId} {causes : Causes}
      {out : Service × Option Effect} :
      s.stage? id = some (.submitting p n) →
      out.1.handoff.armed = (if s.handoff.armed = some n then none else s.handoff.armed) →
      Submitless out.2 → Touches s (.returned id (.failed causes)) out

section Step

variable {s : Service}

/-- Only a task that has just armed the slot submits a search. -/
theorem submitless_of_plain {id : TaskId} {turn : Turn} (h : turn.stage.Plain) :
    Submitless (move id turn).2 := by
  intro j model n limits heffect
  obtain ⟨p, hstage⟩ := Stage.submitting_of_go (call?_of_effect heffect)
  rw [hstage] at h
  cases h

theorem submitless_of_finished {id : TaskId} {turn : Turn} {r : JobResult}
    (h : turn.stage = .finished r) : Submitless (move id turn).2 := by
  intro j model n limits heffect
  have hcall := call?_of_effect heffect
  rw [h] at hcall
  cases hcall

/-- Whoever comes to arm the slot finds it empty. -/
theorem Undisturbed.empty (h : s.Undisturbed) (ho : s.Orderly) {id : TaskId} {stage : Stage}
    (hid : s.stage? id = some stage) (hin : stage.isInside = true) (hno : stage.search? = none) :
    s.handoff.armed = none := by
  cases ha : s.handoff.armed with
  | none => rfl
  | some n =>
    rw [(ho.searching_iff hid hin n).1 (h.owned n ha)] at hno
    cases hno

theorem Passage.touches (h : s.Undisturbed) (ho : s.Orderly) {id : TaskId} {t : Task}
    (ht : s.tasks[id]? = some t) {r : Option CallResult} {turn : Turn}
    (hpass : Passage s t.job t.stage r turn) (hcrash : ∀ message, r ≠ some (.crashed message)) :
    Touches s (turnEvent id r) (move id turn) ∧ (move id turn).1.aborted = false := by
  have hid := stage?_of_task ht
  have hgo : ∀ {turn : Turn}, ¬turn.Fatal → turn.service.aborted = s.aborted →
      (move id turn).1.aborted = false := by
    intro turn hf hsame
    rw [aborted_move, hsame, h.going, decide_eq_false hf]
    rfl
  generalize t.stage = stage at hpass hid
  cases hpass with
  | plain registry _ _ hplain =>
    exact ⟨.nothing (by rw [handoff_move]; rfl) (submitless_of_plain hplain),
      hgo (not_fatal_to _ _) rfl⟩
  | @armed p fen hempty =>
    refine ⟨.armed (p := p) (n := ⟨s.handoff.issued + 1⟩) hempty ?_ ?_,
      hgo (not_fatal_to _ _) rfl⟩
    · rw [handoff_move, Turn.to, Handoff.arm_of_empty hempty]
    · rw [move_of_not_fatal (not_fatal_to _ _)]
      rfl
  -- The slot is empty when a task comes to arm it.
  | refused harmed =>
    rw [h.empty ho hid rfl rfl] at harmed
    cases harmed
  | submitted =>
    refine ⟨.nothing (by rw [handoff_move]; rfl) ?_, hgo (not_fatal_to _ _) rfl⟩
    intro j model n limits heffect
    cases call?_of_effect heffect
  | @withdrawn p n causes =>
    refine ⟨.withdrawn hid ?_ (submitless_of_finished rfl), hgo (not_fatal_to _ _) rfl⟩
    rw [handoff_move, Turn.to, Handoff.armed_leave, Handoff.armed_disarm]
  | crashed message => exact absurd rfl (hcrash message)
  | @told p n reply hbox =>
    obtain ⟨o, rfl⟩ := h.unerring n reply hbox
    exact ⟨.nothing (by rw [handoff_move]; rfl) (submitless_of_finished rfl),
      hgo (fun hf => by cases hf) rfl⟩

/-- A step of an undisturbed service, in which no submission crashes and a completion is for the
armed search, breaks no rule. -/
theorem touches_step (h : s.Undisturbed) (ho : s.Orderly) {e : Event}
    (hcrash : ∀ id message, e ≠ .returned id (.crashed message))
    (hmatch : ∀ c, e = .completed c → (s.handoff.fulfill c).1 = .ok ()) :
    Touches s e (s.step e) ∧ (s.step e).1.aborted = false := by
  have hc := change_step h.going e
  generalize s.step e = out at hc
  have hnone : Submitless none := fun _ _ _ _ heffect => by cases heffect
  cases hc with
  | idle | arrived | queued => exact ⟨.nothing rfl hnone, h.going⟩
  | completed c =>
    rw [hmatch c rfl]
    exact ⟨.emptied (Handoff.armed_fulfill _ c) fun _ _ _ _ heffect => (by cases heffect), rfl⟩
  | @entered id t ht hw hp =>
    refine ⟨.nothing (by rw [handoff_move]; rfl) (submitless_of_plain (s.plain_firstStage t.job)),
      ?_⟩
    rw [aborted_move, decide_eq_false (not_fatal_to _ _)]
    exact h.going
  | @passed _ id t r turn he ht hpass =>
    subst he
    refine hpass.touches h ho ht ?_
    rintro message rfl
    exact hcrash id message rfl

theorem stays_or_passes (ho : s.Orderly) (ha : s.aborted = false) {id : TaskId} {stage : Stage}
    (hid : s.stage? id = some stage) (hin : stage.isInside = true) (e : Event) :
    (s.step e).1.stage? id = some stage ∨
      ∃ job r turn, e = turnEvent id r ∧ Passage s job stage r turn ∧ s.step e = move id turn := by
  have hc := change_step ha e
  generalize s.step e = out at hc
  cases hc with
  | idle | completed | queued => exact Or.inl hid
  | arrived job =>
    left
    rw [stage?_arrive, if_neg ?_, hid]
    rintro rfl
    rw [stage?_next] at hid
    cases hid
  | @entered j t ht hw hp =>
    -- The task has access, so nobody else is let in.
    cases Visitor.task.inj (Gate.eq_of_poll hp (ho id stage hid hin))
    rw [stage?_of_task ht, hw] at hid
    cases hid
    cases hin
  | @passed _ j t r turn he ht hpass =>
    cases ho.inside_unique (stage?_of_task ht) hpass.inside hid hin
    rw [Option.some.inj ((stage?_of_task ht).symm.trans hid)] at hpass
    exact Or.inr ⟨t.job, r, turn, he, hpass, rfl⟩

theorem submitting_stays (ho : s.Orderly) (ha : s.aborted = false) {id : TaskId} {p : Profile}
    {n : SearchId} (hid : s.stage? id = some (.submitting p n)) {e : Event}
    (he : ∀ r, e ≠ .returned id r) : (s.step e).1.stage? id = some (.submitting p n) := by
  rcases stays_or_passes ho ha hid rfl e with hstays | ⟨job, r, turn, rfl, hpass, -⟩
  · exact hstays
  · cases hpass with
    | plain registry hin hno => cases hno
    | submitted | withdrawn | crashed => exact absurd rfl (he _)

theorem thinking_of_returned (ha : s.aborted = false) {id : TaskId} {p : Profile} {n : SearchId}
    (hid : s.stage? id = some (.submitting p n)) :
    (s.step (.returned id .ok)).1.stage? id = some (.thinking p n) := by
  obtain ⟨t, ht, hstage⟩ := Option.map_eq_some_iff.1 hid
  rw [step_returned ha ht, hstage]
  change (move id (.to (.thinking p n) s)).1.stage? id = _
  rw [stage?_move, if_pos ⟨rfl, not_fatal_to _ _⟩]
  exact congrArg (Option.map _) hid

/-- A task that waits goes on waiting, or its mailbox has an outcome, which it takes. -/
theorem Undisturbed.thinking_step (h : s.Undisturbed) (ho : s.Orderly) {id : TaskId} {p : Profile}
    {n : SearchId} (hid : s.stage? id = some (.thinking p n)) (e : Event) :
    (s.step e).1.stage? id = some (.thinking p n) ∨
      ∃ o, s.handoff.box? n = some (some (.ok o)) ∧
        (s.step e).1.stage? id = some (.finished (.move (o.result p.model))) := by
  rcases stays_or_passes ho h.going hid rfl e with hstays | ⟨job, r, turn, -, hpass, hstep⟩
  · exact Or.inl hstays
  · cases hpass with
    | plain registry hin hno => cases hno
    | told hbox =>
      obtain ⟨o, rfl⟩ := h.unerring n _ hbox
      refine Or.inr ⟨o, hbox, ?_⟩
      rw [hstep, stage?_move, if_pos ⟨rfl, fun hf => by cases hf⟩]
      exact congrArg (Option.map _) hid

/-- The replies of an undisturbed service stay outcomes. -/
theorem unerring_step (h : s.Undisturbed) (hs : s.handoff.Sound) {e : Event}
    (hmatch : ∀ c, e = .completed c → (s.handoff.fulfill c).1 = .ok ()) :
    (s.step e).1.Replies fun r => ∃ o, r = .ok o := by
  refine replies_step hs h.unerring ?_
  intro c n he harmed
  refine ⟨c.outcome, if_pos ?_⟩
  have hok := hmatch c he
  by_contra hne
  rw [Handoff.fulfill, harmed] at hok
  simp only [if_neg (Ne.symm hne)] at hok
  cases hok

end Step

section Run

variable {settings : EngineSettings} {table : Table} {policy : FailurePolicy} {es : List Event}

/-- Without a crash no search is left in the slot. -/
theorem not_stranded_of_uncrashed (hcrash : ∀ id message, .returned id (.crashed message) ∉ es)
    (n : SearchId) : ¬Stranded (new settings table policy) es n := by
  rintro ⟨before, id, message, later, -, rfl, -⟩
  exact hcrash id message (by simp)

theorem owned_of_uncrashed (hcrash : ∀ id message, .returned id (.crashed message) ∉ es)
    (ha : ((new settings table policy).after es).aborted = false) (n : SearchId)
    (hn : ((new settings table policy).after es).handoff.armed = some n) :
    ((new settings table policy).after es).Searching n :=
  (((tidy settings table policy es).balanced ha).owned n hn).resolve_right
    (not_stranded_of_uncrashed hcrash n)

/-- Without a crash, and as long as all replies are outcomes, no request is told of a broken
rule. -/
theorem not_handoff_of_uncrashed (hcrash : ∀ id message, .returned id (.crashed message) ∉ es)
    (hreplies : ∀ before, before <+: es →
      ((new settings table policy).after before).Replies fun r => ∃ o, r = .ok o)
    (id : TaskId) (e : HandoffError) :
    ((new settings table policy).after es).result? id ≠ some (.move (.error (.handoff e))) := by
  intro h
  rcases told_of_result settings table policy h with (⟨_, hr⟩ | ⟨m, hr⟩) |
      ⟨xs, n, reply, hxs, -, p, -, hbox, hr⟩
  · cases hr
  · cases hr
    obtain ⟨before, ⟨later, rfl⟩, hstranded⟩ := (tidy settings table policy es).told id m h
    exact not_stranded_of_uncrashed
      (fun id message hmem => hcrash id message (List.mem_append_left _ hmem)) m hstranded
  · obtain ⟨o, rfl⟩ := hreplies xs hxs n reply hbox
    cases o <;> cases hr

end Run

end Sparring.Service
