import Sparring.Proofs.Handoff.History
import Sparring.Proofs.Strictness

/-!
# What a handoff escalates

Two kinds of steps escalate an error (`Escalates`): the delivery of a completion that the slot
does not take, and the escalation of an error that somebody has at hand. The policy has a say in
nothing else, and what it ends the process for is a violation.
-/

namespace Sparring.Handoff

/-- The error that a step escalates. A completion put straight into the slot escalates none. -/
inductive Escalates (h : Handoff) : Step → HandoffError → Prop
  | delivery {c : Completion} {e : HandoffError} :
      (h.fulfill c).1 = .error e → Escalates h (.deliver c) e
  | escalation (e : HandoffError) : Escalates h (.escalate e) e

theorem escalates_iff {h : Handoff} {step : Step} {e : HandoffError} :
    Escalates h step e ↔ (h.perform step).2.1 = some e := by
  constructor
  · intro hstep
    cases hstep with
    | delivery hf => simp [perform, hf]
    | escalation => rfl
  · intro hstep
    cases step with
    | arm =>
      simp only [perform] at hstep
      split at hstep <;> cases hstep
    | fulfill | disarm | collect | leave => cases hstep
    | escalate e' =>
      cases hstep
      exact .escalation e
    | deliver c =>
      simp only [perform] at hstep
      split at hstep
      next => cases hstep
      next hf =>
        cases hstep
        exact .delivery hf

/-- A step that escalates a violation. -/
def Breaches (h : Handoff) (step : Step) : Prop :=
  ∃ e, e.isViolation = true ∧ Escalates h step e

/-- Whether an error that is escalated ends a process that is to abort. -/
theorem any_aborts {escalated : Option HandoffError} :
    escalated.any FailurePolicy.abort.aborts = true ↔
      ∃ e, e.isViolation = true ∧ escalated = some e := by
  cases escalated <;> simp [FailurePolicy.aborts]

@[simp] theorem any_responds (escalated : Option HandoffError) :
    escalated.any FailurePolicy.respond.aborts = false := by
  cases escalated <;> rfl

/-! ## Under the two policies -/

/-- The handoff of a process with a policy. -/
def machine (policy : FailurePolicy) : Machine Handoff Step Report where
  step := advance
  look h step := (h.perform step).1
  ends h step := (h.perform step).2.1.any policy.aborts

/-- The transcript of a row of steps has the slots of the trail, and tells whether it ends early. -/
theorem transcript_eq (policy : FailurePolicy) (h : Handoff) (steps : List Step) :
    transcript policy h steps =
      ⟨((machine policy).trail h steps).map fun (report, h') => (report, h'.armed),
        decide (((machine policy).trail h steps).length < steps.length)⟩ := by
  induction steps generalizing h with
  | nil => rfl
  | cons step steps ih =>
    have hrest := ih (h.advance step)
    unfold transcript Machine.trail
    by_cases hends : (machine policy).ends h step = true
    · have hany : (h.perform step).2.1.any policy.aborts = true := hends
      simp [hends, hany]
    · have hany : ¬(h.perform step).2.1.any policy.aborts = true := hends
      simp only [if_neg hends, if_neg hany]
      rw [show transcript policy (h.perform step).2.2 steps = _ from hrest]
      simp only [List.map_cons, List.length_cons, Nat.add_lt_add_iff_right]
      rfl

/-- A handoff whose process is to abort is that of one that is to respond, up to a breach. -/
theorem restrains : Machine.Restrains (machine .abort) (machine .respond) id
    (fun _ => True) Breaches where
  going _ _ _ := trivial
  lasts h step _ := any_responds (h.perform step).2.1
  ends h step _ hbreach := by
    obtain ⟨e, he, hstep⟩ := hbreach
    exact any_aborts.2 ⟨e, he, escalates_iff.1 hstep⟩
  spares h step _ hbreach := by
    rw [← Bool.not_eq_true]
    intro hany
    obtain ⟨e, he, hstep⟩ := any_aborts.1 hany
    exact hbreach ⟨e, he, escalates_iff.2 hstep⟩
  look _ _ _ _ := rfl
  step _ _ _ _ := rfl

end Sparring.Handoff
