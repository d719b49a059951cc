import Sparring.Proofs.Handoff.Escalation
import Sparring.Proofs.Service.Indifference
import Sparring.Proofs.Service.Serial

/-!
# What the service escalates

An event of the service escalates an error in three places (`Escalates`): a completion that the
slot does not take, an arming that the slot refuses, and a waiter that finds an error in its
mailbox. An event at which none of these is a violation does the same under every policy
(`step_under`), and one at which some is ends a process that is to abort (`ends_of_breach`).
-/

namespace Sparring.Service

/-- The service under another policy. -/
def under (s : Service) (policy : FailurePolicy) : Service := { s with policy }

@[simp] theorem aborted_under (s : Service) (policy : FailurePolicy) :
    (s.under policy).aborted = s.aborted := rfl

/-- The error that an event of a service that goes on escalates. -/
inductive Escalates (s : Service) : Event → HandoffError → Prop
  /-- An engine delivers a completion that the slot does not take. -/
  | delivery {c : Completion} {e : HandoffError} :
      (s.handoff.fulfill c).1 = .error e → Escalates s (.completed c) e
  /-- A request that has its position finds the slot armed. -/
  | arming {id : TaskId} {t : Task} {p : Profile} {fen : String} {m : SearchId} :
      s.tasks[id]? = some t → t.stage = .positioning p fen → (∀ q text, t.job ≠ .place q text) →
      s.handoff.armed = some m → Escalates s (.returned id .ok) (.alreadyArmed m)
  /-- A request that waits finds an error in its mailbox. -/
  | waiting {id : TaskId} {t : Task} {p : Profile} {n : SearchId} {e : HandoffError} :
      s.tasks[id]? = some t → t.stage = .thinking p n →
      s.handoff.box? n = some (some (.error e)) → Escalates s (.run id) e

/-- An event that escalates a violation. -/
def Breaches (s : Service) (event : Event) : Prop :=
  ∃ e, e.isViolation = true ∧ Escalates s event e

/-! ## Turns -/

section Turns

variable {s : Service} {id : TaskId} {t : Task} {turn : Turn} {e : HandoffError}

theorem escalated_of_answer (ht : s.tasks[id]? = some t) {r : CallResult}
    (h : s.answer t.job t.stage r = some turn) :
    turn.escalated = some e ↔ Escalates s (.returned id r) e := by
  constructor
  · intro he
    have hpass := passage_answer h
    obtain ⟨job, stage⟩ := t
    cases hpass with
    | plain | armed | submitted | withdrawn | crashed => cases he
    | refused harmed =>
      cases he
      refine .arming ht rfl (fun q text hjob => ?_) harmed
      cases hjob
      cases h
  · intro he
    cases he with
    | @arming _ u p fen m hu hstage hjob harmed =>
      cases ht.symm.trans hu
      have harm : s.answer t.job t.stage .ok = some (s.arm p) := by
        rw [hstage]
        cases hjob' : t.job with
        | place q text => exact absurd hjob' (hjob q text)
        | move | preload | listModels | obtain => rfl
      cases h.symm.trans harm
      unfold arm
      rw [Handoff.arm_of_armed harmed]

theorem escalated_of_look (ht : s.tasks[id]? = some t) {p : Profile} {n : SearchId}
    (hstage : t.stage = .thinking p n) (h : s.look p n = some turn) :
    turn.escalated = some e ↔ Escalates s (.run id) e := by
  have hpass : Passage s t.job (.thinking p n) none turn := passage_look h
  cases hpass with
  | @told _ _ r hbox =>
    constructor
    · intro he
      cases r with
      | ok => cases he
      | error e' =>
        cases he
        exact .waiting ht hstage hbox
    · intro he
      cases he with
      | waiting hu hthinking hbox' =>
        cases ht.symm.trans hu
        cases hstage.symm.trans hthinking
        cases hbox.symm.trans hbox'
        rfl

/-- An error that is no violation ends the process under no policy. -/
theorem not_any_aborts {escalated : Option HandoffError}
    (h : ∀ e, escalated = some e → ¬e.isViolation = true) (policy : FailurePolicy) :
    escalated.any policy.aborts = false := by
  cases policy with
  | respond => exact Handoff.any_responds escalated
  | abort =>
    rw [← Bool.not_eq_true, Handoff.any_aborts]
    rintro ⟨e, he, hescalated⟩
    exact h e hescalated he

/-- A turn that escalates no violation moves its task on in the same way under every policy. -/
theorem move_under (id : TaskId) (h : ∀ e, turn.escalated = some e → ¬e.isViolation = true)
    (policy : FailurePolicy) :
    move id { turn with service := turn.service.under policy } =
      ((move id turn).1.under policy, (move id turn).2) := by
  have hsame : ¬turn.Fatal := by simp [Turn.Fatal, not_any_aborts h]
  have hunder : ¬Turn.Fatal { turn with service := turn.service.under policy } := by
    simp [Turn.Fatal, not_any_aborts h]
  rw [move_of_not_fatal hsame, move_of_not_fatal hunder]
  rfl

/-- A turn that escalates a violation ends a process that is to abort. -/
theorem move_of_violation (hv : e.isViolation = true) (h : turn.escalated = some e)
    (hpolicy : turn.service.policy = .abort) :
    (move id turn).1.aborted = true ∧ (move id turn).2 = none := by
  have hfatal : turn.Fatal := by
    unfold Turn.Fatal
    rw [h, hpolicy]
    exact hv
  rw [move_of_fatal hfatal]
  exact ⟨rfl, rfl⟩

theorem firstStage_under (s : Service) (job : Job) (policy : FailurePolicy) :
    (s.under policy).firstStage job = s.firstStage job := by
  cases job <;> rfl

/-- The turns of a task that the two policies give it are the same but for the policy. -/
theorem recast_eq (htasks : turn.service.tasks = s.tasks) (policy : FailurePolicy) :
    turn.recast s.tasks policy = { turn with service := turn.service.under policy } := by
  rw [← htasks]
  rfl

end Turns

/-! ## Events -/

section Events

variable {s : Service} {event : Event}

theorem moveIfAny_under {id : TaskId} {turn? : Option Turn}
    (htasks : ∀ turn, turn? = some turn → turn.service.tasks = s.tasks)
    (h : ∀ turn e, turn? = some turn → turn.escalated = some e → ¬e.isViolation = true)
    (policy : FailurePolicy) :
    (s.under policy).moveIfAny id (turn?.map (·.recast s.tasks policy)) =
      ((s.moveIfAny id turn?).1.under policy, (s.moveIfAny id turn?).2) := by
  cases turn? with
  | none => rfl
  | some turn =>
    simp only [Option.map_some, moveIfAny]
    rw [recast_eq (htasks turn rfl)]
    exact move_under id (fun e => h turn e rfl) policy

/-- A completion is taken in the same way under every policy, if the slot takes it. -/
theorem complete_under {c : Completion} (h : ¬Breaches s (.completed c)) (policy : FailurePolicy) :
    (s.under policy).complete c = ((s.complete c).1.under policy, (s.complete c).2) := by
  have hfulfill : (s.under policy).handoff.fulfill c = s.handoff.fulfill c := rfl
  simp only [complete, hfulfill]
  rcases hf : s.handoff.fulfill c with ⟨e | _, handoff⟩
  · have he : ¬e.isViolation = true := fun hv => h ⟨e, hv, .delivery (by rw [hf])⟩
    have haborts : ∀ q : FailurePolicy, (some e).any q.aborts = false :=
      not_any_aborts fun _ he' => Option.some.inj he' ▸ he
    simp only [Option.any_some] at haborts
    simp [haborts, under]
  · rfl

theorem run_under {id : TaskId} {t : Task} (ht : s.tasks[id]? = some t)
    (h : ¬Breaches s (.run id)) (policy : FailurePolicy) :
    (s.under policy).run id t = ((s.run id t).1.under policy, (s.run id t).2) := by
  obtain ⟨job, stage⟩ := t
  cases stage with
  | waiting =>
    have hpoll : (s.under policy).gate.poll (.task id) = s.gate.poll (.task id) := rfl
    simp only [run, hpoll]
    rcases s.gate.poll (.task id) with ⟨_ | _, gate⟩
    · rfl
    · have hfirst := firstStage_under { s with gate } job policy
      have hquiet : ∀ e, (Turn.to (firstStage { s with gate } job) { s with gate }).escalated =
          some e → ¬e.isViolation = true := fun e he => by cases he
      have hmove := move_under id hquiet policy
      rw [← hmove]
      exact congrArg (fun stage => move id (.to stage _)) hfirst
  | thinking p n =>
    have hlook : (s.under policy).look p n = _ := s.look_recast s.tasks policy p n
    have hpass : ∀ turn, s.look p n = some turn → Passage s job (.thinking p n) none turn :=
      fun _ => passage_look
    simp only [run, hlook]
    refine moveIfAny_under (fun turn hturn => (hpass turn hturn).tasks_eq) ?_ policy
    intro turn e hturn he hv
    exact h ⟨e, hv, (escalated_of_look ht rfl hturn).1 he⟩
  | setup | startingGame | positioning | submitting | finished => rfl

/-- An event at which no violation is escalated does the same under every policy. -/
theorem step_under (h : ¬Breaches s event) (policy : FailurePolicy) :
    (s.under policy).step event = ((s.step event).1.under policy, (s.step event).2) := by
  by_cases ha : s.aborted = true
  · rw [step_of_aborted ha, step_of_aborted (s := s.under policy) ha]
  · unfold step
    rw [aborted_under, if_neg ha, if_neg ha]
    cases event with
    | start | hangUp => rfl
    | completed c => exact complete_under h policy
    | returned id r =>
      have htasks : (s.under policy).tasks[id]? = s.tasks[id]? := rfl
      simp only [htasks]
      cases ht : s.tasks[id]? with
      | none => rfl
      | some t =>
        have hanswer : (s.under policy).answer t.job t.stage r = _ :=
          s.answer_recast s.tasks policy t.job t.stage r
        simp only [hanswer]
        refine moveIfAny_under (fun turn hturn => (passage_answer hturn).tasks_eq) ?_ policy
        intro turn e hturn he hv
        exact h ⟨e, hv, (escalated_of_answer ht hturn).1 he⟩
    | run id =>
      have htasks : (s.under policy).tasks[id]? = s.tasks[id]? := rfl
      simp only [htasks]
      cases ht : s.tasks[id]? with
      | none => rfl
      | some t => exact run_under ht h policy

/-- An event at which a violation is escalated ends a process that is to abort, and nothing comes
of it outside. -/
theorem ends_of_breach (ha : s.aborted = false) (h : Breaches s event) :
    ((s.under .abort).step event).1.aborted = true ∧ ((s.under .abort).step event).2 = none := by
  obtain ⟨e, hv, he⟩ := h
  have hgo : ¬(s.under .abort).aborted = true := by simp [ha]
  unfold step
  rw [if_neg hgo]
  -- What is escalated does not depend on the policy, so the strict service escalates it too.
  cases he with
  | @delivery c _ hf =>
    have hfulfill : (s.under .abort).handoff.fulfill c = s.handoff.fulfill c := rfl
    simp only [complete, hfulfill]
    rcases hf' : s.handoff.fulfill c with ⟨e' | _, handoff⟩
    · rw [hf'] at hf
      cases hf
      have haborts : (s.under .abort).policy.aborts e = true := hv
      simp only [if_pos haborts, and_self]
    · rw [hf'] at hf
      cases hf
  | @arming id t p fen m ht hstage hjob harmed =>
    have htasks : (s.under .abort).tasks[id]? = some t := ht
    simp only [htasks]
    cases hturn : (s.under .abort).answer t.job t.stage .ok with
    | none =>
      have hcall := call?_of_answer hturn
      rw [hstage] at hcall
      cases hcall
    | some turn =>
      exact move_of_violation hv
        ((escalated_of_answer htasks hturn).2 (.arming htasks hstage hjob harmed))
        (passage_answer hturn).policy_eq
  | @waiting id t p n _ ht hstage hbox =>
    have htasks : (s.under .abort).tasks[id]? = some t := ht
    obtain ⟨job, stage⟩ := t
    cases hstage
    simp only [htasks, run]
    cases hturn : (s.under .abort).look p n with
    | none => exact absurd hturn (look_of_reply hbox)
    | some turn =>
      have hpass : Passage (s.under .abort) job (.thinking p n) none turn := passage_look hturn
      exact move_of_violation hv
        ((escalated_of_look htasks rfl hturn).2 (.waiting htasks rfl hbox)) hpass.policy_eq

end Events

end Sparring.Service
