import Sparring.Proofs.Service.Turns

/-!
# What a turn does not depend on

How a task moves on depends on its own stage, on the registry and on the handoff. It does not depend
on what is noted about the other tasks, nor on what is to be done about a violation: a turn only
names the error that it escalates (`answer_recast`, `look_recast`).
-/

namespace Sparring.Service

/-- The service with other tasks and another policy. -/
def recast (s : Service) (tasks : List Task) (policy : FailurePolicy) : Service :=
  { s with tasks, policy }

/-- The turn in the service with other tasks and another policy. -/
def Turn.recast (turn : Turn) (tasks : List Task) (policy : FailurePolicy) : Turn :=
  { turn with service := turn.service.recast tasks policy }

section Recast

variable (s : Service) (tasks : List Task) (policy : FailurePolicy)

theorem arm_recast (p : Profile) :
    (s.recast tasks policy).arm p = (s.arm p).recast tasks policy := by
  have harm : (s.recast tasks policy).handoff.arm = s.handoff.arm := rfl
  unfold arm
  rw [harm]
  rcases s.handoff.arm with ⟨_ | _, handoff⟩ <;> rfl

theorem succeed_recast (job : Job) (stage : Stage) :
    (s.recast tasks policy).succeed job stage =
      (s.succeed job stage).map (·.recast tasks policy) := by
  cases stage with
  | setup p rest setup =>
    have hnext : setup.next (s.recast tasks policy).settings p = setup.next s.settings p := rfl
    simp only [succeed]
    rw [hnext]
    cases setup.next s.settings p <;> rfl
  | startingGame p rest => cases job <;> rfl
  | positioning p fen =>
    cases job with
    | place => rfl
    | move | preload | listModels | obtain => exact congrArg some (s.arm_recast tasks policy p)
  | submitting p n => rfl
  | waiting | thinking | finished => rfl

theorem answer_recast (job : Job) (stage : Stage) (r : CallResult) :
    (s.recast tasks policy).answer job stage r =
      (s.answer job stage r).map (·.recast tasks policy) := by
  cases r with
  | ok => exact s.succeed_recast tasks policy job stage
  | failed | crashed => cases stage <;> rfl

theorem look_recast (p : Profile) (n : SearchId) :
    (s.recast tasks policy).look p n = (s.look p n).map (·.recast tasks policy) := by
  have hcollect : (s.recast tasks policy).handoff.collect n = s.handoff.collect n := rfl
  unfold look
  rw [hcollect]
  rcases s.handoff.collect n with ⟨_ | _ | (_ | _), handoff⟩ <;> rfl

end Recast

end Sparring.Service
