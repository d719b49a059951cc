import Sparring.Engine.Backend
import Sparring.Proofs.Service.Numbers

/-!
# What the service sees of a system

A system is the service with its engines. Of a step of the system the service sees one event of
its own at most: the event itself, or what the engines let it see (`relay`). So a run of the
system is a run of the service (`service_after`), and all that holds of every run of the service
holds of every system, whatever its engines do.
-/

namespace Sparring

/-- The event of the service that an event of the engines is. -/
def EngineEvent.seen : EngineEvent → Service.Event
  | deliver c => .completed c
  | returned id r => .returned id r

namespace System

variable {σ ε : Type} [Backend σ ε]

/-- The system after a run. -/
def after (s : System σ) (es : List (Event ε)) : System σ := s.steps es

@[simp] theorem after_nil (s : System σ) : s.after ([] : List (Event ε)) = s := rfl

theorem after_cons (s : System σ) (e : Event ε) (es : List (Event ε)) :
    s.after (e :: es) = (s.step e).after es := rfl

theorem after_append (s : System σ) (xs ys : List (Event ε)) :
    s.after (xs ++ ys) = (s.after xs).after ys := List.foldl_append

theorem after_concat (s : System σ) (es : List (Event ε)) (e : Event ε) :
    s.after (es ++ [e]) = (s.after es).step e := by
  rw [after_append]
  rfl

/-- The engines after a step of their own, and what they let the service see. -/
def engineStep (s : System σ) : Event ε → σ × Option EngineEvent
  | .engine e => if s.service.aborted then (s.engines, none) else Backend.step s.engines e
  | _ => (s.engines, none)

/-- The event that the service sees of a step. -/
def relay (s : System σ) (e : Event ε) : Option Service.Event :=
  match e with
  | .start job => some (.start job)
  | .run id => some (.run id)
  | .hangUp id => some (.hangUp id)
  | .engine _ => (s.engineStep e).2.map EngineEvent.seen

/-- The engines after they have taken up an effect of the service. -/
def takeUp (engines : σ) : Option Service.Effect → σ
  | none => engines
  | some (.call id c) => Backend.begin engines id c
  | some (.delivered r) => Backend.told engines r

theorem serve_eq (s : System σ) (e : Service.Event) :
    s.serve e = ⟨(s.service.step e).1, takeUp s.engines (s.service.step e).2⟩ := by
  unfold serve
  rcases s.service.step e with ⟨service, _ | _ | _⟩ <;> rfl

/-- A step of a system: the engines take theirs, the service takes the one it sees, and the
engines take up its effect. -/
theorem step_eq (s : System σ) (e : Event ε) :
    s.step e = match s.relay e with
      | none => ⟨s.service, (s.engineStep e).1⟩
      | some e' =>
        ⟨(s.service.step e').1, takeUp (s.engineStep e).1 (s.service.step e').2⟩ := by
  cases e with
  | start | run | hangUp => exact serve_eq s _
  | engine e =>
    by_cases ha : s.service.aborted = true
    · simp [step, relay, engineStep, ha]
    · simp only [step, relay, engineStep, if_neg ha]
      rcases Backend.step s.engines e with ⟨engines, _ | _ | _⟩
      · rfl
      · exact serve_eq _ _
      · exact serve_eq _ _

theorem service_step (s : System σ) (e : Event ε) :
    (s.step e).service = s.service.after (s.relay e).toList := by
  rw [step_eq]
  cases s.relay e with
  | none => rfl
  | some e' => exact (Service.after_cons s.service e' []).symm

theorem service_of_seen {s : System σ} {e : Event ε} {e' : Service.Event}
    (h : s.relay e = some e') : (s.step e).service = (s.service.step e').1 := by
  rw [service_step, h]
  exact Service.after_cons s.service e' []

theorem service_of_unseen {s : System σ} {e : Event ε} (h : s.relay e = none) :
    (s.step e).service = s.service := by
  rw [service_step, h]
  rfl

theorem step_of_aborted {s : System σ} (ha : s.service.aborted = true) (e : Event ε) :
    s.step e = s := by
  have hserve : ∀ e', s.serve e' = s := fun e' => by
    rw [serve, Service.step_of_aborted ha]
  cases e with
  | start | run | hangUp => exact hserve _
  | engine e => exact if_pos ha

theorem after_of_aborted {s : System σ} (ha : s.service.aborted = true) (es : List (Event ε)) :
    s.after es = s := by
  induction es with
  | nil => rfl
  | cons e es ih => rw [after_cons, step_of_aborted ha, ih]

/-- The events that the service sees of a run. -/
def relayed (s : System σ) (es : List (Event ε)) : List Service.Event :=
  observe step (fun s e => (s.relay e).toList) s es

theorem relayed_concat (s : System σ) (es : List (Event ε)) (e : Event ε) :
    s.relayed (es ++ [e]) = s.relayed es ++ ((s.after es).relay e).toList := observe_concat ..

/-- What the service does outside in a step: it calls an engine, or tells one what has become of
its completion. -/
def effect (s : System σ) (e : Event ε) : List Service.Effect :=
  (s.relay e).toList.flatMap fun e' => (s.service.step e').2.toList

/-- What the service does outside in a run. -/
def effects (s : System σ) (es : List (Event ε)) : List Service.Effect :=
  observe step effect s es

/-- What the service had seen at some time it had seen at some time of the run. -/
theorem of_prefix_relayed {s : System σ} {es : List (Event ε)} {xs : List Service.Event}
    (h : xs <+: s.relayed es) : ∃ ys, ys <+: es ∧ s.relayed ys = xs := by
  induction es using List.reverseRecOn with
  | nil => exact ⟨[], List.nil_prefix, (List.prefix_nil.1 h).symm⟩
  | append_singleton es e ih =>
    have hearlier : xs <+: s.relayed es → ∃ ys, ys <+: es ++ [e] ∧ s.relayed ys = xs := by
      intro h
      obtain ⟨ys, hys, hxs⟩ := ih h
      exact ⟨ys, hys.trans (List.prefix_append _ _), hxs⟩
    rw [relayed_concat] at h
    cases hr : (s.after es).relay e with
    | none =>
      rw [hr, Option.toList_none, List.append_nil] at h
      exact hearlier h
    | some a =>
      rw [hr, Option.toList_some, List.prefix_concat_iff] at h
      rcases h with rfl | h
      · exact ⟨es ++ [e], List.prefix_rfl, by rw [relayed_concat, hr, Option.toList_some]⟩
      · exact hearlier h

/-- A run of a system is a run of its service. -/
theorem service_after (s : System σ) (es : List (Event ε)) :
    (s.after es).service = s.service.after (s.relayed es) := by
  induction es using List.reverseRecOn with
  | nil => rfl
  | append_singleton es e ih =>
    rw [after_concat, service_step, relayed_concat, Service.after_append, ih]

theorem going_of_append {s : System σ} {xs ys : List (Event ε)}
    (h : (s.after (xs ++ ys)).service.aborted = false) :
    (s.after xs).service.aborted = false := by
  cases ha : (s.after xs).service.aborted with
  | false => rfl
  | true =>
    rw [after_append, service_after, Service.aborted_after ha] at h
    cases h

theorem issued_le_append (s : System σ) (xs ys : List (Event ε)) :
    (s.after xs).service.handoff.issued ≤ (s.after (xs ++ ys)).service.handoff.issued := by
  rw [after_append, service_after (s.after xs)]
  exact Service.issued_le_after _ _

/-- A task that has a search had it as soon as the number had been issued. -/
theorem seeks_of_append {s : System σ} {xs ys : List (Event ε)} {id : TaskId} {n : SearchId}
    (h : (s.after (xs ++ ys)).service.Seeks id n)
    (hn : n.number ≤ (s.after xs).service.handoff.issued) : (s.after xs).service.Seeks id n := by
  rw [after_append, service_after] at h
  exact Service.seeks_of_issued h hn

end System

end Sparring
