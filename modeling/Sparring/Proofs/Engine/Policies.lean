import Sparring.Proofs.Http.Responses
import Sparring.Proofs.Service.Escalation

/-!
# The two policies

What happens around a service is an event of the system, an HTTP request, or something that
somebody outside does to the handoff. These *incidents* are run under either policy, and what is
shown of each is compared, with the states of the system.

`policies_part_at_breach` says that the two policies cannot be told apart until a violation is
escalated: by a delivery, by an arming, or by a waiter that has its reply. There a process that
is to abort ends, and one that is to respond goes on. Nothing else ends a process; in particular
a completion put straight into the slot does not, nor an abandoned search, an engine error or a
rejected request (`Harmless`).
-/

namespace Sparring

/-- The service after somebody outside has done something to its handoff. -/
def Service.touch (s : Service) (step : Handoff.Step) : Service :=
  { s with
    handoff := s.handoff.advance step
    aborted := (s.handoff.perform step).2.1.any s.policy.aborts }

/-- To deliver a completion from outside is to do what an engine does. -/
theorem Service.touch_deliver {s : Service} (ha : s.aborted = false) (c : Completion) :
    s.touch (.deliver c) = (s.step (.completed c)).1 := by
  have hgo : ¬s.aborted = true := by simp [ha]
  unfold step touch
  rw [if_neg hgo]
  simp only [complete, Handoff.advance, Handoff.perform]
  rcases hf : s.handoff.fulfill c with ⟨e | _, handoff⟩
  · cases he : s.policy.aborts e <;> simp [he, ha]
  · simp [ha]

namespace System

variable {σ ε : Type} [Backend σ ε]

/-- What can happen around a service. -/
inductive Incident (ε : Type) where
  | event (e : Event ε)
  | request (r : HttpRequest)
  /-- Somebody outside does something to the handoff. -/
  | touch (step : Handoff.Step)

/-- What an incident shows. -/
inductive Shown where
  /-- The event that the service sees, and what comes of it outside. -/
  | seen (event : Option Service.Event) (effects : List Service.Effect)
  | owed (exchange : Http.Exchange)
  | reported (report : Handoff.Report)

/-- The system under another policy. -/
def under (s : System σ) (policy : FailurePolicy) : System σ :=
  { s with service := s.service.under policy }

/-- The system after an incident. -/
def meet (s : System σ) : Incident ε → System σ
  | .event e => s.step e
  | .request r => s.after (arrival r)
  | .touch step =>
    if s.service.aborted then s else { s with service := s.service.touch step }

/-- What an incident shows. -/
def shows (s : System σ) : Incident ε → Shown
  | .event e => .seen (s.relay e) (s.effect e)
  | .request r => .owed (s.exchange r)
  | .touch step => .reported (s.service.handoff.perform step).1

/-- The system as a machine that ends when its process does. -/
def machine : Machine (System σ) (Incident ε) Shown where
  step := meet
  look := shows
  ends s i := (s.meet i).service.aborted

/-- An incident that escalates a violation. -/
def Breaches (s : System σ) : Incident ε → Prop
  | .event e => ∃ e', s.relay e = some e' ∧ s.service.Breaches e'
  | .request _ => False
  | .touch step => s.service.handoff.Breaches step

/-! ## One incident -/

section Incidents

variable (s : System σ)

theorem relay_under (policy : FailurePolicy) (e : Event ε) :
    (s.under policy).relay e = s.relay e := by
  cases e <;> rfl

theorem engineStep_under (policy : FailurePolicy) (e : Event ε) :
    (s.under policy).engineStep e = s.engineStep e := by
  cases e <;> rfl

theorem not_breaches_relay {s : System σ} {e : Event ε} (h : ¬Breaches s (.event e))
    {e' : Service.Event} (he : s.relay e = some e') : ¬s.service.Breaches e' :=
  fun hbreach => h ⟨e', he, hbreach⟩

theorem effect_under {s : System σ} {e : Event ε} (h : ¬Breaches s (.event e))
    (policy : FailurePolicy) : (s.under policy).effect e = s.effect e := by
  unfold effect
  rw [relay_under]
  cases he : s.relay e with
  | none => rfl
  | some e' =>
    have hstep : (s.under policy).service.step e' = _ :=
      Service.step_under (not_breaches_relay h he) policy
    simp [hstep]

theorem step_under {s : System σ} {e : Event ε} (h : ¬Breaches s (.event e))
    (policy : FailurePolicy) : (s.under policy).step e = (s.step e).under policy := by
  rw [step_eq, step_eq, relay_under, engineStep_under]
  cases he : s.relay e with
  | none => rfl
  | some e' =>
    have hstep : (s.under policy).service.step e' = _ :=
      Service.step_under (not_breaches_relay h he) policy
    simp only [hstep]
    rfl

theorem touch_under {s : System σ} {step : Handoff.Step}
    (h : ¬s.service.handoff.Breaches step) (policy : FailurePolicy) :
    (s.service.under policy).touch step = (s.service.touch step).under policy := by
  have hno : ∀ e, (s.service.handoff.perform step).2.1 = some e → ¬e.isViolation = true :=
    fun e he hv => h ⟨e, hv, Handoff.escalates_iff.2 he⟩
  have hpolicy := Service.not_any_aborts hno
  simp only [Service.touch, Service.under, hpolicy]

/-- An incident at which no violation is escalated does the same under every policy. -/
theorem meet_under {s : System σ} {i : Incident ε} (h : ¬Breaches s i) (policy : FailurePolicy) :
    (s.under policy).meet i = (s.meet i).under policy := by
  cases i with
  | event e => exact step_under h policy
  | request r =>
    simp only [meet, arrival]
    cases Http.route r with
    | reply => rfl
    | move fen difficulty =>
      have hstart : ¬Breaches s (.event (.start (.move fen difficulty) : Event ε)) := by
        rintro ⟨e', ⟨⟩, e, -, he⟩
        cases he
      exact step_under hstart policy
  | touch step =>
    have htouch := touch_under h policy
    by_cases ha : s.service.aborted = true
    · have ha' : (s.under policy).service.aborted = true := ha
      simp only [meet, if_pos ha, if_pos ha']
    · have ha' : ¬(s.under policy).service.aborted = true := ha
      simp only [meet, if_neg ha, if_neg ha']
      exact congrArg (fun service => (⟨service, s.engines⟩ : System σ)) htouch

theorem shows_under {s : System σ} {i : Incident ε} (h : ¬Breaches s i) (policy : FailurePolicy) :
    (s.under policy).shows i = s.shows i := by
  cases i with
  | event e =>
    simp only [shows]
    rw [relay_under, effect_under h]
  | request r => rfl
  | touch step => rfl

/-- A system whose process goes on and is to respond. -/
def Responding (s : System σ) : Prop :=
  s.service.policy = .respond ∧ s.service.aborted = false

theorem Responding.step {s : System σ} (hs : s.Responding) (e : Event ε) :
    (s.step e).Responding := by
  have hterms : (s.step e).service.terms = s.service.terms := by
    rw [service_step, Service.terms_after]
  refine ⟨(congrArg (·.2.2) hterms).trans hs.1, ?_⟩
  rw [service_step]
  exact Service.going_after hs.1 hs.2 _

theorem Responding.meet {s : System σ} (hs : s.Responding) (i : Incident ε) :
    (s.meet i).Responding := by
  cases i with
  | event e => exact hs.step e
  | request r =>
    simp only [System.meet, arrival]
    cases Http.route r with
    | reply => exact hs
    | move fen difficulty => exact hs.step (.start (.move fen difficulty))
  | touch step =>
    have hgo : ¬s.service.aborted = true := by simp [hs.2]
    simp only [System.meet, if_neg hgo]
    refine ⟨hs.1, ?_⟩
    simp only [Service.touch, hs.1]
    exact Handoff.any_responds _

/-- An incident that escalates a violation ends a process that is to abort. -/
theorem ends_of_breaches {s : System σ} (hs : s.service.aborted = false) {i : Incident ε}
    (h : Breaches s i) : ((s.under .abort).meet i).service.aborted = true := by
  cases i with
  | event e =>
    obtain ⟨e', he, hbreach⟩ := h
    have hseen : (s.under .abort).relay e = some e' := (s.relay_under .abort e).trans he
    have hservice := service_of_seen hseen
    have hends := (Service.ends_of_breach hs hbreach).1
    exact (congrArg Service.aborted hservice).trans hends
  | request r => exact h.elim
  | touch step =>
    obtain ⟨e, hv, he⟩ := h
    have hgo : ¬(s.under .abort).service.aborted = true := by simp [under, hs]
    simp only [meet, if_neg hgo]
    exact Handoff.any_aborts.2 ⟨e, hv, Handoff.escalates_iff.1 he⟩

theorem meet_of_aborted {s : System σ} (ha : s.service.aborted = true) (i : Incident ε) :
    (s.meet i).service = s.service := by
  cases i with
  | event e => exact congrArg System.service (step_of_aborted ha e)
  | request r =>
    simp only [meet, arrival]
    cases Http.route r with
    | reply => rfl
    | move fen difficulty =>
      exact congrArg System.service (step_of_aborted ha (.start (.move fen difficulty) : Event ε))
  | touch step => simp only [meet, if_pos ha]

end Incidents

/-- A system that is to abort is one that is to respond, up to a breach. -/
theorem restrains : Machine.Restrains (machine (σ := σ) (ε := ε)) machine (·.under .abort)
    Responding Breaches where
  going s i hs := hs.meet i
  lasts s i hs := (hs.meet i).2
  ends s i hs hbreach := ends_of_breaches hs.2 hbreach
  spares s i hs hbreach := by
    have hmeet := congrArg (·.service.aborted) (meet_under hbreach .abort)
    exact hmeet.trans (hs.meet i).2
  look s i _ hbreach := shows_under hbreach .abort
  step s i _ hbreach := meet_under hbreach .abort

/-! ## What ends no process -/

/-- Incidents at which something goes wrong and no violation is escalated. -/
inductive Harmless (s : System σ) : Incident ε → Prop
  /-- A completion is put straight into the slot, whether it fits or not. -/
  | fulfill (c : Completion) : Harmless s (.touch (.fulfill c))
  /-- Somebody escalates that a search was abandoned. -/
  | abandoned (n : SearchId) : Harmless s (.touch (.escalate (.abandoned n)))
  /-- A waiter finds that its search was abandoned. -/
  | waiter {id : TaskId} {t : Task} {p : Profile} {n m : SearchId} :
      s.service.tasks[id]? = some t → t.stage = .thinking p n →
      s.service.handoff.box? n = some (some (.error (.abandoned m))) →
      Harmless s (.event (.run id))
  /-- A waiter finds an outcome, which may be that the engine has gone or cannot be understood. -/
  | outcome {id : TaskId} {t : Task} {p : Profile} {n : SearchId} {o : Outcome} :
      s.service.tasks[id]? = some t → t.stage = .thinking p n →
      s.service.handoff.box? n = some (some (.ok o)) → Harmless s (.event (.run id))
  /-- An engine call comes back with an error, or crashes. -/
  | call {e : Event ε} {id : TaskId} {r : CallResult} :
      s.relay e = some (.returned id r) → r ≠ .ok → Harmless s (.event e)
  /-- A completion that the slot waits for is delivered, whatever its outcome. -/
  | completion {e : Event ε} {c : Completion} {n : SearchId} :
      s.relay e = some (.completed c) → s.service.handoff.armed = some n → c.search = some n →
      Harmless s (.event e)
  /-- A request comes, well put or to be rejected. -/
  | request (r : HttpRequest) : Harmless s (.request r)

theorem Harmless.not_breaches {s : System σ} {i : Incident ε} (h : Harmless s i) :
    ¬Breaches s i := by
  cases h with
  | fulfill c =>
    rintro ⟨e, -, he⟩
    cases he
  | abandoned n =>
    rintro ⟨e, hv, he⟩
    cases he
    cases hv
  | waiter ht hstage hbox =>
    rintro ⟨_, ⟨⟩, e, hv, he⟩
    cases he with
    | waiting hu hthinking hbox' =>
      cases ht.symm.trans hu
      cases hstage.symm.trans hthinking
      cases hbox.symm.trans hbox'
      cases hv
  | outcome ht hstage hbox =>
    rintro ⟨_, ⟨⟩, e, -, he⟩
    cases he with
    | waiting hu hthinking hbox' =>
      cases ht.symm.trans hu
      cases hstage.symm.trans hthinking
      cases hbox.symm.trans hbox'
  | call hrelay hr =>
    rintro ⟨e', hrelay', e, -, he⟩
    cases hrelay.symm.trans hrelay'
    cases he
    exact hr rfl
  | completion hrelay harmed hsearch =>
    rintro ⟨e', hrelay', e, -, he⟩
    cases hrelay.symm.trans hrelay'
    cases he with
    | delivery hf => simp [Handoff.fulfill, harmed, hsearch] at hf
  | request r => exact id

/-- Whatever the policy, nothing of this kind ends a process. -/
theorem aborted_of_harmless {s : System σ} {i : Incident ε} (h : Harmless s i) :
    (s.meet i).service.aborted = s.service.aborted := by
  by_cases ha : s.service.aborted = true
  · rw [meet_of_aborted ha]
  · have hgoing : s.service.aborted = false := by simpa using ha
    have hresponding : (s.under .respond).Responding := ⟨rfl, hgoing⟩
    have hmeet := congrArg (·.service.aborted) (meet_under h.not_breaches .respond)
    rw [hgoing]
    exact hmeet.symm.trans (hresponding.meet i).2

/-! ## The comparison -/

/-- How the two policies compare over a row of steps of a handoff and over a row of incidents
around a service. -/
structure PoliciesPart (h : Handoff) (steps : List Handoff.Step) (s : System σ)
    (incidents : List (Incident ε)) : Prop where
  /-- An arming that finds a search pending, a completion that finds none and one that is for
  something else are violations, and no other error is. -/
  violations : ∀ e : HandoffError, e.isViolation = true ↔
    (∃ n, e = .alreadyArmed n) ∨ (∃ got, e = .notArmed got) ∨ ∃ n got, e = .mismatch n got
  /-- A search that was abandoned is none. -/
  abandoned : ∀ n, (HandoffError.abandoned n).isViolation = false
  /-- The trails of the handoff part at the first delivery or escalation of a violation. -/
  handoff : Machine.Parted (Handoff.machine .abort) (Handoff.machine .respond) id
    Handoff.Breaches h steps
  /-- A trail is what the transcript is made of. -/
  transcripts : ∀ policy, Handoff.transcript policy h steps =
    ⟨((Handoff.machine policy).trail h steps).map fun (report, h') => (report, h'.armed),
      decide (((Handoff.machine policy).trail h steps).length < steps.length)⟩
  /-- The trails of the system part at the first incident that escalates a violation. -/
  system : Machine.Parted (machine (σ := σ) (ε := ε)) machine (·.under .abort) Breaches s incidents
  /-- To deliver a completion from outside is to do what an engine does. -/
  delivered : ∀ (t : Service) (c : Completion), t.aborted = false →
    t.touch (.deliver c) = (t.step (.completed c)).1
  /-- A process that has ended does nothing any more. -/
  ended : ∀ (t : System σ) (i : Incident ε), t.service.aborted = true →
    (t.meet i).service = t.service
  /-- What goes wrong without a violation ends no process, whatever its policy. -/
  harmless : ∀ (t : System σ) (i : Incident ε), Harmless t i →
    (t.meet i).service.aborted = t.service.aborted
  /-- A request that is rejected changes nothing at all. -/
  rejected : ∀ (t : System σ) (r : HttpRequest), r.method = "GET" →
    (Http.splitTarget r.target).1 = ['/'] → Http.Rejected (Http.query r) →
    t.meet (.request r : Incident ε) = t

/-- Under either policy everything is the same up to the first violation that is escalated, and
there a process that is to abort ends. -/
theorem policies_part_at_breach (h : Handoff) (steps : List Handoff.Step)
    (settings : EngineSettings) (table : Table) (engines : σ)
    (incidents : List (Incident ε)) :
    PoliciesPart h steps ⟨.new settings table .respond, engines⟩ incidents where
  violations e := by cases e <;> simp [HandoffError.isViolation]
  abandoned _ := rfl
  handoff := Handoff.restrains.parted trivial steps
  transcripts policy := Handoff.transcript_eq policy h steps
  system := restrains.parted ⟨rfl, rfl⟩ incidents
  delivered _ c ha := Service.touch_deliver ha c
  ended _ i ha := meet_of_aborted ha i
  harmless _ _ hi := aborted_of_harmless hi
  rejected t r hget hroot hrejected := by
    obtain ⟨response, hreply⟩ := Http.routeQuery_eq_reply_iff.2 hrejected
    have hroute := (Http.route_eq_routeQuery hget hroot).trans hreply
    simp only [meet, arrival, hroute]
    rfl

end System

end Sparring
