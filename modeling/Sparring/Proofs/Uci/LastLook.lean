import Sparring.Proofs.Service.Waiting
import Sparring.Proofs.Uci.Submission

/-!
# After the reader's last look

When the output of a process is over, its reader looks for a current search, reports that the
engine has exited, and ends. It never looks again. So a search that is recorded after the look
stays current and nobody delivers it, while every other search has been delivered when the reader
has ended (`ended_account`). A request whose search comes too late waits and keeps the gate, as
long as no other process delivers anything.
-/

namespace Sparring.Uci

namespace Instance

variable {i : Instance}

/-! ## The look -/

/-- Whether a reader has taken its last look. -/
def HasLooked (i : Instance) : Prop := i.reader = .ended ∨ ∃ c, i.reader = .reporting c

/-- A reader that has taken its last look took it before, or enters it into the journal. -/
theorem hasLooked_perform {d : Deed} (h : (i.perform d).HasLooked) :
    i.HasLooked ∨ .looked ∈ i.marks d := by
  cases d with
  | read =>
    have hread := reading_read i
    simp only [perform] at h
    generalize i.read = out at hread h
    cases hread with
    | looksAt hr | looks hr =>
      rw [marks_of_closing hr]
      simp
    | reports hr => exact Or.inl (Or.inr ⟨_, hr⟩)
    | ended hr => exact Or.inl (Or.inl hr)
    | waits hr | ack hr | other hr =>
      rcases h with h | ⟨c, h⟩ <;> cases hr.symm.trans h
    | exhausted | bad | answer | delivers => rcases h with h | ⟨c, h⟩ <;> cases h
  | print bytes | write line =>
    simp only [perform] at h
    split at h <;> exact Or.inl h
  | closeOutput | closeInput | record | withdraw | takeAck => exact Or.inl h

theorem looked_mem (model : String) {deeds : List Deed}
    (h : ((new model).performs deeds).HasLooked) : .looked ∈ (new model).journal deeds := by
  induction deeds using List.reverseRecOn with
  | nil => rcases h with h | ⟨c, h⟩ <;> cases h
  | append_singleton deeds d ih =>
    rw [performs_concat] at h
    rw [journal_concat, List.mem_append]
    exact (hasLooked_perform h).imp_left ih

/-! ## The end -/

theorem ended_perform (h : i.reader = .ended) (d : Deed) :
    (i.perform d).reader = .ended ∧ i.delivered d = [] := by
  cases d with
  | read =>
    have hread := reading_read i
    simp only [perform, delivered]
    generalize i.read = out at hread
    cases hread with
    | ended => exact ⟨h, rfl⟩
    | waits hr | exhausted hr | bad hr | answer hr | ack hr | other hr | delivers hr | looksAt hr
    | looks hr | reports hr => cases h.symm.trans hr
  | print bytes | write line =>
    simp only [perform]
    split <;> exact ⟨h, rfl⟩
  | closeOutput | closeInput | record | withdraw | takeAck => exact ⟨h, rfl⟩

/-- A reader that has ended delivers nothing. -/
theorem ended_performs (h : i.reader = .ended) (deeds : List Deed) :
    (i.performs deeds).reader = .ended ∧ observe perform delivered i deeds = [] := by
  induction deeds generalizing i with
  | nil => exact ⟨h, rfl⟩
  | cons d deeds ih =>
    obtain ⟨hd, hnone⟩ := ended_perform h d
    obtain ⟨hend, hrest⟩ := ih hd
    refine ⟨hend, ?_⟩
    rw [observe, hnone, hrest]
    rfl

theorem pending_of_delivered {d : Deed} {c : Completion} (h : c ∈ i.delivered d) :
    d = .read ∧ i.read.2 = some c ∧ c ∈ i.pending := by
  cases d with
  | read =>
    have hread := reading_read i
    simp only [delivered] at h
    generalize i.read = out at hread h ⊢
    cases hread with
    | delivers hr | reports hr =>
      cases Option.mem_toList.1 h
      refine ⟨rfl, rfl, ?_⟩
      rw [pending, hr]
      exact List.mem_singleton_self _
    | waits | exhausted | bad | answer | ack | other | looksAt | looks | ended => cases h
  | print | closeOutput | closeInput | write | record | withdraw | takeAck => cases h

end Instance

/-! ## Deliveries in a run -/

section Deliveries

variable {s : System Fleet} {k : Nat} {i : Instance}

theorem deliveriesOf_of_ended (hi : s.engines.instances[k]? = some i) (hr : i.reader = .ended)
    (es : List Occurrence) : deliveriesOf s k es = [] := by
  induction es generalizing s i with
  | nil => rfl
  | cons e es ih =>
    obtain ⟨hend, hnone⟩ := Instance.ended_performs hr (deedsOf s k e)
    have hrest := ih (instance_step hi e) hend
    have hshow : showing k Instance.delivered s e = [] := by
      unfold showing
      rw [hi]
      exact hnone
    rw [deliveriesOf, shown, observe, hshow]
    exact hrest

theorem read_of_mem {e : Occurrence} (h : .read ∈ deedsOf s k e) :
    s.service.aborted = false ∧ e = .engine (.read k) ∧ deedsOf s k e = [.read] := by
  cases e with
  | start | run | hangUp => cases h
  | engine e =>
    simp only [deedsOf] at h ⊢
    split at h
    · cases h
    next hgo =>
      rw [if_neg hgo]
      rw [Bool.or_eq_true, not_or, Bool.not_eq_true] at hgo
      refine ⟨hgo.1, ?_⟩
      cases e with
      | launched => cases h
      | proceed task =>
        simp only [Fleet.deeds] at h
        cases hc : s.engines.call? task with
        | none =>
          rw [hc] at h
          cases h
        | some c =>
          rw [hc] at h
          simp only [OpenCall.deeds] at h
          split at h
          next process a rest failure hp =>
            split at h
            · cases a <;> cases List.mem_singleton.1 h
            · cases h
          · split at h
            · simp at h
            · cases h
          · cases h
      | read process =>
        simp only [Fleet.deeds] at h ⊢
        split at h
        next hk =>
          cases hk
          exact ⟨rfl, if_pos rfl⟩
        · cases h
      | print | closeOutput | closeInput =>
        simp only [Fleet.deeds] at h
        split at h
        · cases List.mem_singleton.1 h
        · cases h

/-- What the reader of a process has delivered has reached the service, after the reader had to
deliver it. -/
theorem relayed_of_delivered {es : List Occurrence} {c : Completion}
    (h : c ∈ deliveriesOf s k es) :
    ∃ before e later i, es = before ++ e :: later ∧ (s.after before).service.aborted = false ∧
      (s.after before).engines.instances[k]? = some i ∧ c ∈ i.pending ∧
      (s.after before).relay e = some (.completed c) := by
  obtain ⟨before, e, later, rfl, he⟩ := mem_observe.1 h
  have hafter : before.foldl System.step s = s.after before := rfl
  rw [hafter] at he
  unfold showing at he
  cases hi : (s.after before).engines.instances[k]? with
  | none =>
    rw [hi] at he
    cases he
  | some i =>
    rw [hi] at he
    obtain ⟨xs, d, ys, hdeeds, hd⟩ := mem_observe.1 he
    obtain ⟨rfl, -, -⟩ := Instance.pending_of_delivered hd
    have hread : .read ∈ deedsOf (s.after before) k e := by
      rw [hdeeds]
      simp
    obtain ⟨ha, rfl, hone⟩ := read_of_mem hread
    -- The reader took one step only, so it stood there when the event began.
    have hxs : xs = [] := by
      rw [hone] at hdeeds
      cases xs with
      | nil => rfl
      | cons x xs =>
        have := congrArg List.length hdeeds
        simp at this
    rw [hxs] at hd
    obtain ⟨-, hread, hpending⟩ := Instance.pending_of_delivered hd
    refine ⟨before, _, later, i, rfl, ha, hi, hpending, ?_⟩
    have hstep : ((s.after before).engines.step (.read k)).2 = some (.deliver c) := by
      simp only [Fleet.step, hi]
      exact congrArg (Option.map EngineEvent.deliver) hread
    rw [System.relay, engineStep_of_going ha, hstep]
    rfl

end Deliveries

/-! ## Calls on a process whose reader has ended -/

/-- How many turns an action takes at most, with what is left to do when it fails. -/
def Action.turns : Action → Nat
  | .write _ => 2
  | .record _ | .withdraw | .await _ => 1

/-- How many turns a row of actions takes at most. -/
def turns : List Action → Nat
  | [] => 0
  | a :: rest => a.turns + turns rest

namespace Fleet

variable {f : Fleet} {c : OpenCall} {id : TaskId}

theorem call?_advance (hc : f.call? id = some c) (progress : Progress) :
    (f.advance id progress).call? id = some { c with progress } := by
  have htask := task_of_call? hc
  have hsame : ((fun d : OpenCall => decide (d.task = id)) ∘ fun d =>
      if d.task = id then { d with progress } else d) = fun d => decide (d.task = id) := by
    funext d
    by_cases hd : d.task = id <;> simp [hd]
  unfold call? at hc ⊢
  simp only [advance]
  rw [List.find?_map, hsame, hc, Option.map_some, if_pos htask]

theorem call?_modify (process : Nat) (g : Instance → Instance) (id : TaskId) :
    (f.modify process g).call? id = f.call? id := rfl

theorem turns_afterFailure (call : EngineCall) : turns (afterFailure call) ≤ 1 := by
  cases call <;> exact Nat.le_of_ble_eq_true rfl

/-- An action gets a call on, and it does not wait for a reader that has ended. -/
theorem act_of_ended (hc : f.call? id = some c) {i : Instance} (hr : i.reader = .ended) (k : Nat)
    (a : Action) (rest : List Action) (failure : Option Causes) :
    ∃ rest' failure',
      (f.act c k i a rest failure).call? id =
        some { c with progress := .acting k rest' failure' } ∧
      turns rest' + (i.perform a.deed).acks.length < turns (a :: rest) + i.acks.length := by
  obtain rfl := task_of_call? hc
  have hadvance := fun {process : Nat} {g : Instance → Instance} (progress : Progress) =>
    call?_advance (f := f.modify process g) (call?_modify process g c.task ▸ hc) progress
  rw [turns]
  -- Each action takes turns off those that are left, and an acknowledgement that is taken one more.
  cases a with
  | write line =>
    simp only [act, Action.deed, Instance.perform, Action.turns]
    split
    · exact ⟨_, _, hadvance _, by simp only; omega⟩
    · have hfew := turns_afterFailure c.call
      exact ⟨_, _, call?_advance hc _, by omega⟩
  | record n | withdraw =>
    simp only [act, Action.deed, Instance.perform, Action.turns]
    exact ⟨_, _, hadvance _, by omega⟩
  | await b =>
    simp only [act, Action.deed, Instance.perform, Action.turns, hr, if_true]
    cases hacks : i.acks with
    | nil =>
      refine ⟨_, _, call?_advance hc _, ?_⟩
      simp only [turns, List.tail_nil, List.length_nil]
      omega
    | cons got acks =>
      refine ⟨_, _, hadvance _, ?_⟩
      simp only [List.tail_cons, List.length_cons]
      split
      · omega
      · simp only [turns, Action.turns]
        omega

end Fleet

theorem step_acting {s : System Fleet} (ha : s.service.aborted = false) {id : TaskId} {c : OpenCall}
    (hc : s.engines.call? id = some c) {k : Nat} {a : Action} {rest : List Action}
    {failure : Option Causes} (hp : c.progress = .acting k (a :: rest) failure) {i : Instance}
    (hi : s.engines.instances[k]? = some i) :
    s.step (.engine (.proceed id)) = ⟨s.service, s.engines.act c k i a rest failure⟩ := by
  have hengines : s.engineStep (.engine (.proceed id)) =
      (s.engines.act c k i a rest failure, none) := by
    rw [engineStep_of_going ha]
    simp only [Fleet.step, hc, Fleet.proceed, hp, hi]
  have hrelay : s.relay (.engine (.proceed id)) = none := by
    rw [System.relay, hengines]
    rfl
  rw [System.step_eq, hrelay, hengines]

/-- A call on a process whose reader has ended returns when it has had enough turns. -/
theorem returned_of_ended {s : System Fleet} (ha : s.service.aborted = false) {id : TaskId}
    {c : OpenCall} (hc : s.engines.call? id = some c) {k : Nat} {rest : List Action}
    {failure : Option Causes} (hp : c.progress = .acting k rest failure) {i : Instance}
    (hi : s.engines.instances[k]? = some i) (hr : i.reader = .ended) :
    ∃ times r,
      (s.after (proceeds id times)).relay (.engine (.proceed id)) = some (.returned id r) := by
  generalize hweight : turns rest + i.acks.length = weight
  -- Every turn of the call leaves it fewer turns, since nobody hands it acknowledgements any more.
  induction weight using Nat.strongRecOn generalizing s c rest failure i with
  | ind weight ih =>
    have htask := Fleet.task_of_call? hc
    cases rest with
    | nil =>
      refine ⟨0, ?_⟩
      simp only [proceeds, List.replicate_zero, System.after_nil, System.relay,
        engineStep_of_going ha, Fleet.step, hc, Fleet.proceed, hp]
      cases failure <;> exact ⟨_, by rw [← htask]; rfl⟩
    | cons a rest =>
      obtain ⟨rest', failure', hc', hfewer⟩ := Fleet.act_of_ended hc hr k a rest failure
      have hnext := step_acting ha hc hp hi
      have hdeeds : deedsOf s k (.engine (.proceed id)) = [a.deed] := by
        simp [deedsOf, ha, hi, Fleet.deeds, hc, OpenCall.deeds, hp]
      have hi' := instance_step hi (.engine (.proceed id))
      rw [hdeeds, Instance.performs, List.foldl_cons, List.foldl_nil] at hi'
      rw [← hweight] at ih
      obtain ⟨times, r, hreturned⟩ := ih _ hfewer (s := s.step (.engine (.proceed id)))
        (by rw [hnext]; exact ha) (by rw [hnext]; exact hc') rfl hi'
        (Instance.ended_perform hr a.deed).1 rfl
      refine ⟨times + 1, r, ?_⟩
      rw [proceeds, List.replicate_succ, System.after_cons]
      exact hreturned

/-! ## What the journal tells -/

/-- Marks that touch the current search have a first one. -/
theorem exists_first {marks : List Mark} (h : ¬∀ a ∈ marks, a.Keeps) :
    ∃ xs a zs, marks = xs ++ a :: zs ∧ (∀ b ∈ xs, b.Keeps) ∧ ¬a.Keeps := by
  induction marks with
  | nil => exact absurd (fun _ ha => by cases ha) h
  | cons a marks ih =>
    by_cases ha : a.Keeps
    · have hrest : ¬∀ b ∈ marks, b.Keeps := fun hall =>
        h fun b hb => (List.mem_cons.1 hb).elim (fun hb => hb ▸ ha) (hall b)
      obtain ⟨xs, b, zs, rfl, hxs, hb⟩ := ih hrest
      refine ⟨a :: xs, b, zs, rfl, ?_, hb⟩
      intro c hc
      rcases List.mem_cons.1 hc with rfl | hc
      · exact ha
      · exact hxs c hc
    · exact ⟨[], a, marks, rfl, by simp, ha⟩

theorem looked_not_keeps : ¬Mark.looked.Keeps := fun h => by cases h (some ⟨0⟩)

theorem bestMove_not_keeps (o : Outcome) : ¬(Mark.heard (.bestMove o)).Keeps :=
  fun h => by cases h (some ⟨0⟩)

/-- A search that is no longer current, and has not been taken back, has got a completion. -/
theorem completion_of_touched {before rest : List Mark} {n : SearchId}
    (hrest : ∀ a ∈ rest, ¬a.Keeps → ¬a.OfCall) (h : ¬∀ a ∈ rest, a.Keeps) :
    ∃ o, ⟨some n, o⟩ ∈ completions none (before ++ .recorded n :: rest) := by
  obtain ⟨xs, a, zs, rfl, hxs, ha⟩ := exists_first h
  have hno := hrest a (by simp) ha
  have hcurrent : (before ++ .recorded n :: xs).foldl Mark.next none = some n :=
    current_eq_some.2 ⟨before, xs, rfl, hxs⟩
  have htells : ∃ o, ⟨some n, o⟩ ∈ Mark.tells (some n) a := by
    cases a with
    | heard r =>
      cases r with
      | bestMove o => exact ⟨o, List.mem_singleton_self _⟩
      | ack | other => exact absurd (fun _ => rfl) ha
    | looked => exact ⟨.engineExited, List.mem_singleton_self _⟩
    | recorded | withdrawn | wrote | took => exact absurd trivial hno
  obtain ⟨o, ho⟩ := htells
  refine ⟨o, mem_observe.2 ⟨before ++ .recorded n :: xs, a, zs, by simp, ?_⟩⟩
  rwa [hcurrent]

/-- After its recording no call has touched the search that has been submitted. -/
theorem Submitted.quiet_of_not_keeps {J : Journals} {n : SearchId} {k : Nat} {line : String}
    {before during later : List Mark} (h : Submitted J n k line before during later) :
    ∀ a ∈ during ++ .wrote line :: later, ¬a.Keeps → ¬a.OfCall := by
  intro a hmem hno
  rcases List.mem_append.1 hmem with hmem | hmem
  · exact h.during_quiet a hmem
  · rcases List.mem_cons.1 hmem with rfl | hmem
    · exact absurd (fun _ => rfl) hno
    · exact h.later_quiet a hmem

/-- Whether a search has been recorded after the reader's last look, and is current since. -/
def RecordedLate (marks : List Mark) (n : SearchId) : Prop :=
  ∃ before during, marks = before ++ .recorded n :: during ∧ .looked ∈ before ∧
    ∀ a ∈ during, a.Keeps

section Run

variable {settings : EngineSettings} {table : Table} {policy : FailurePolicy} {k : Nat}
  {es : List Occurrence} {i : Instance}

theorem sound_after_start (es : List Occurrence) :
    ((start settings table policy).after es).service.handoff.Sound := by
  rw [System.service_after]
  exact Service.sound_after Handoff.sound_new _

theorem housed_after_start
    (ha : ((start settings table policy).after es).service.aborted = false) :
    ((start settings table policy).after es).service.Housed := by
  rw [System.service_after] at ha ⊢
  exact Service.housed_after settings table policy ha

theorem not_pending_of_delivered {n : SearchId} {o : Outcome}
    (h : ⟨some n, o⟩ ∈ deliveriesOf (start settings table policy) k es) :
    ((start settings table policy).after es).service.handoff.box? n ≠ some none := by
  obtain ⟨before, e, later, i, rfl, ha, hi, hpending, hrelay⟩ := relayed_of_delivered h
  have hcompletion : ⟨some n, o⟩ ∈
      completions none (journalOf (start settings table policy) k before) := by
    rw [← deliveries_of_journal hi]
    exact List.mem_append_right _ hpending
  obtain ⟨xs, during, a, zs, hjournal, -⟩ := mem_completions hcompletion
  have hissued : n.number ≤
      ((start settings table policy).after before).service.handoff.issued := by
    apply (kept_after before).issued k n
    rw [journals, hjournal]
    simp
  rw [System.after_append, System.after_cons, System.service_after,
    System.service_of_seen hrelay]
  refine Service.not_pending_after (Service.sound_step (sound_after_start before) _)
    (Nat.le_trans hissued (Service.issued_step _ _)) ?_ _
  exact Service.not_pending_of_completed (sound_after_start before) ha _ n

theorem reply_of_delivered (ha : ((start settings table policy).after es).service.aborted = false)
    {id : TaskId} {p : Profile} {n : SearchId}
    (hid : ((start settings table policy).after es).service.stage? id = some (.thinking p n))
    {o : Outcome} (h : ⟨some n, o⟩ ∈ deliveriesOf (start settings table policy) k es) :
    ∃ r, ((start settings table policy).after es).service.handoff.box? n = some (some r) := by
  have hpending := not_pending_of_delivered h
  have hbox := housed_after_start ha n ⟨id, _, hid, rfl⟩
  rcases hb : ((start settings table policy).after es).service.handoff.box? n with _ | _ | r
  · exact absurd hb hbox
  · exact absurd hb hpending
  · exact ⟨r, rfl⟩

/-- The search that is current when the reader has ended came after the reader's last look. -/
theorem current_iff_recordedLate
    (hi : ((start settings table policy).after es).engines.instances[k]? = some i)
    (hr : i.reader = .ended) (n : SearchId) :
    i.current = some n ↔ RecordedLate (journalOf (start settings table policy) k es) n := by
  rw [current_of_journal hi, current_eq_some]
  constructor
  · rintro ⟨before, during, hjournal, hduring⟩
    refine ⟨before, during, hjournal, ?_, hduring⟩
    have hlooked : .looked ∈ journalOf (start settings table policy) k es := by
      obtain ⟨model, deeds, rfl, hshown⟩ := process_of_some hi
      rw [journalOf, hshown]
      exact Instance.looked_mem model (Or.inl hr)
    rw [hjournal, List.mem_append, List.mem_cons] at hlooked
    rcases hlooked with h | h | h
    · exact h
    · cases h
    · exact absurd (hduring _ h) looked_not_keeps
  · rintro ⟨before, during, hjournal, -, hduring⟩
    exact ⟨before, during, hjournal, hduring⟩

/-- A search that is current has not been delivered. -/
theorem not_delivered_of_current
    (hi : ((start settings table policy).after es).engines.instances[k]? = some i)
    {n : SearchId} (hn : i.current = some n) (j : Nat) (o : Outcome) :
    ⟨some n, o⟩ ∉ deliveriesOf (start settings table policy) j es := by
  intro h
  rw [current_of_journal hi] at hn
  obtain ⟨before, during, hjournal, hduring⟩ := current_eq_some.1 hn
  obtain ⟨xs, ys, a, zs, hjournal', -, ha⟩ := mem_completions (completion_of_delivered h)
  rw [List.append_assoc, List.cons_append] at hjournal'
  have hmem : .recorded n ∈ journals settings table policy es k := by
    rw [journals, hjournal]
    simp
  obtain ⟨_, _, honce⟩ := (kept_after es).once k n hmem
  obtain ⟨-, -, hduring'⟩ := honce.unique hjournal
  obtain ⟨-, -, hlater⟩ := honce.unique hjournal'
  have hkeeps : a.Keeps := by
    apply hduring
    rw [hduring', ← hlater]
    simp
  rcases ha with rfl | ⟨rfl, -⟩
  · exact bestMove_not_keeps o hkeeps
  · exact looked_not_keeps hkeeps

/-- When the reader has ended, a search that is no longer current has a reply. -/
theorem reply_of_ended
    (hi : ((start settings table policy).after es).engines.instances[k]? = some i)
    (hr : i.reader = .ended)
    (ha : ((start settings table policy).after es).service.aborted = false) {id : TaskId}
    {p : Profile} {n : SearchId}
    (hid : ((start settings table policy).after es).service.stage? id = some (.thinking p n))
    (hrecorded : .recorded n ∈ journalOf (start settings table policy) k es)
    (hn : i.current ≠ some n) :
    ∃ r, ((start settings table policy).after es).service.handoff.box? n = some (some r) := by
  obtain ⟨j, limits, before, during, later, hsub⟩ := (kept_after es).thinking id p n hid
  have hk : j = k := by
    by_contra hne
    exact hsub.once.elsewhere k (Ne.symm hne) hrecorded
  subst hk
  have hjournal : journalOf (start settings table policy) j es = _ := hsub.once.journal
  -- The search is not current, so something has touched it, and that has told of it.
  have htouched : ¬∀ a ∈ during ++ .wrote (goCommand limits) :: later, a.Keeps := by
    intro hkeeps
    rw [current_of_journal hi, hjournal] at hn
    exact hn (current_eq_some.2 ⟨before, _, rfl, hkeeps⟩)
  have hcompletion : ∃ o, ⟨some n, o⟩ ∈
      completions none (journalOf (start settings table policy) j es) := by
    rw [hjournal]
    exact completion_of_touched hsub.quiet_of_not_keeps htouched
  obtain ⟨o, ho⟩ := hcompletion
  have hdelivered : ⟨some n, o⟩ ∈ deliveriesOf (start settings table policy) j es := by
    have hall := deliveries_of_journal hi
    rw [Instance.pending, hr, List.append_nil] at hall
    rwa [hall]
  exact reply_of_delivered ha hid hdelivered

theorem returned_of_reply (ha : ((start settings table policy).after es).service.aborted = false)
    {id : TaskId} {p : Profile} {n : SearchId}
    (hid : ((start settings table policy).after es).service.stage? id = some (.thinking p n))
    {r : Sparring.Reply}
    (hbox : ((start settings table policy).after es).service.handoff.box? n = some (some r)) :
    ((start settings table policy).after (es ++ [.run id])).service.aborted = true ∨
      ∃ r, ((start settings table policy).after (es ++ [.run id])).service.result? id = some r := by
  have hstep : ((start settings table policy).after (es ++ [.run id])).service =
      (((start settings table policy).after es).service.step (.run id)).1 := by
    rw [System.after_concat]
    exact System.service_of_seen rfl
  rw [hstep]
  exact (Service.result_of_reply ha hid hbox).imp_right fun h => ⟨_, h⟩

/-- How it stands with the searches of a process whose reader has ended. -/
structure EndedAccount (s : System Fleet) (es : List Occurrence) (k : Nat) (i : Instance) :
    Prop where
  /-- A call on the process returns when it has had enough turns. -/
  returned : ∀ id c rest failure, (s.after es).service.aborted = false →
    (s.after es).engines.call? id = some c → c.progress = .acting k rest failure →
    ∃ times r, ((s.after es).after (proceeds id times)).relay (.engine (.proceed id)) =
      some (.returned id r)
  /-- A search is current exactly if it was recorded after the reader's last look. -/
  current_iff : ∀ n, i.current = some n ↔ RecordedLate (journalOf s k es) n
  /-- Then nobody has delivered it. -/
  undelivered : ∀ n, i.current = some n → ∀ j o, ⟨some n, o⟩ ∉ deliveriesOf s j es
  /-- A request with another search has its reply and ends when its turn comes. -/
  replied : ∀ id p n, (s.after es).service.aborted = false →
    (s.after es).service.stage? id = some (.thinking p n) → .recorded n ∈ journalOf s k es →
    i.current ≠ some n →
    (s.after (es ++ [.run id])).service.aborted = true ∨
      ∃ r, (s.after (es ++ [.run id])).service.result? id = some r
  /-- A request that waits has such a search. It waits on, and keeps the gate, until another
  process delivers something. -/
  waiting : ∀ id n, (s.after es).service.Waits id n → .recorded n ∈ journalOf s k es →
    i.current = some n ∧
      ∀ more, (∀ j, j ≠ k → deliveriesOf (s.after es) j more = []) →
        (s.after (es ++ more)).service.Waits id n ∧
          (s.after (es ++ more)).service.gate.hasAccess (.task id) = true

/-- A request is left waiting for a process whose reader has ended exactly if its search was
recorded after the reader's last look. -/
theorem ended_account
    (hi : ((start settings table policy).after es).engines.instances[k]? = some i)
    (hr : i.reader = .ended) : EndedAccount (start settings table policy) es k i where
  returned _ _ _ _ ha hc hp := returned_of_ended ha hc hp hi hr
  current_iff := current_iff_recordedLate hi hr
  undelivered n hn := not_delivered_of_current hi hn
  replied id p n ha hid hrecorded hn := by
    obtain ⟨r, hbox⟩ := reply_of_ended hi hr ha hid hrecorded hn
    exact returned_of_reply ha hid hbox
  waiting id n hwaits hrecorded := by
    have hcurrent : i.current = some n := by
      by_contra hne
      obtain ⟨p, hid⟩ := hwaits.thinking
      obtain ⟨r, hbox⟩ := reply_of_ended hi hr hwaits.going hid hrecorded hne
      cases hwaits.waiting.symm.trans hbox
    refine ⟨hcurrent, ?_⟩
    intro more hmore
    rw [System.after_append, System.service_after ((start settings table policy).after es)]
    apply hwaits.after (orderly_after_start settings table policy es)
    intro c hc
    obtain ⟨j, hj⟩ := delivered_of_relayed hc
    by_cases hk : j = k
    · rw [hk, deliveriesOf_of_ended hi hr] at hj
      cases hj
    · rw [hmore j hk] at hj
      cases hj

end Run

/-! ## A run in which a search comes too late -/

/-- A process acknowledges one time too many and answers its first search. Then it prints what is
not UTF-8, and its reader takes its last look and ends. The input of the process stays open, and
the next request finds the acknowledgement that was left over. -/
def outlived : List Occurrence :=
  [.start (bareKings 2 5), .run 0] ++
    opens 0 0 ++ proceeds 0 2 ++ prints 0 "readyok\nreadyok\n" ++ [.engine (.read 0)] ++
    proceeds 0 7 ++ prints 0 "bestmove a2a3\n" ++ [.engine (.read 0), .run 0,
      .engine (.print 0 [255, 10]), .engine (.read 0), .engine (.read 0),
      .start (bareKings 2 5), .run 1] ++
    proceeds 1 9

set_option maxRecDepth 4000 in
/-- The reader has ended, and so its process is accounted for. -/
theorem account_of_outlived :
    ∃ i, ((start .stock .stock .respond).after outlived).engines.instances[0]? = some i ∧
      i.reader = .ended ∧ EndedAccount (start .stock .stock .respond) outlived 0 i :=
  ⟨_, rfl, rfl, ended_account rfl rfl⟩

set_option maxRecDepth 4000 in
/-- The second request has submitted its search, and waits inside the gate for the only process,
whose reader has ended and has delivered the first search only. -/
theorem request_left_waiting :
    (∃ i, ((start .stock .stock .respond).after outlived).engines.instances = [i] ∧
      i.reader = .ended ∧ i.inputOpen = true ∧ i.current = some ⟨2⟩) ∧
    deliveriesOf (start .stock .stock .respond) 0 outlived =
      [⟨some ⟨1⟩, .move ⟨⟨0, 1⟩, ⟨0, 2⟩, none⟩⟩] ∧
    ((start .stock .stock .respond).after outlived).service.Waits 1 ⟨2⟩ ∧
    .recorded ⟨2⟩ ∈ journalOf (start .stock .stock .respond) 0 outlived ∧
    ((start .stock .stock .respond).after outlived).service.gate.hasAccess (.task 1) = true := by
  refine ⟨⟨_, rfl, rfl, rfl, rfl⟩, ?_, ⟨rfl, ⟨_, rfl⟩, rfl⟩, ?_, rfl⟩ <;> decide +kernel

end Sparring.Uci
