import Sparring.Proofs.Uci.Custody

/-!
# Every request gets the answer to its own search

A request *asks* a process: it has its search recorded there, and has the line written that starts
it. If that is the search with the number `j` that the process is told to start, the answer is the
one with the number `j` that the process prints.

As long as the processes behave, no rule of the handoff is ever broken, and a request that has
asked gets exactly this answer, or learns that the engine has exited if the process has come to its
end without it (`own_answer_returned`). A printed answer is always returned: the reader comes to it,
delivers it, and the request takes it at its next turn.

Printed is what can be read, up to the first line that is not UTF-8. At such a line the reader
gives up, and what the process prints after it is never heard (`answer_after_unreadable`).
-/

namespace Sparring.Uci

/-- Whether a request has asked a process for the answer with the number `j`: it has submitted its
search after the process was told to start `j` others. -/
def Asks (s : System Fleet) (es : List Occurrence) (k : Nat) (id : TaskId) (p : Profile) (j : Nat) :
    Prop :=
  ∃ n before record middle go later, es = before ++ record :: middle ++ go :: later ∧
    Submits s k id n before record middle go ∧
    (s.after (before ++ record :: middle)).service.stage? id = some (.submitting p n) ∧
    goesWritten s k before = j

/-- Whether the search of a request has been submitted, and the call has still to return. -/
structure Written (s : System Fleet) (id : TaskId) (p : Profile) (n : SearchId) : Prop where
  stage : s.service.stage? id = some (.submitting p n)
  call : ∃ c ∈ s.engines.calls, c.task = id ∧ ∃ k, c.progress = .acting k [] none

/-- Whether a request waits for the completion of its search, or has taken it. -/
inductive Expects (s : System Fleet) (seen : List Service.Event) (id : TaskId) (p : Profile)
    (n : SearchId) : Prop
  | waits : s.service.stage? id = some (.thinking p n) → Expects s seen id p n
  | told {o : Outcome} : .completed ⟨some n, o⟩ ∈ seen →
      s.service.stage? id = some (.finished (.move (o.result p.model))) → Expects s seen id p n

/-! ## From the submission on -/

section Step

variable {s : System Fleet} {J : Journals} {e : Occurrence} {id : TaskId} {p : Profile}
  {n : SearchId}

theorem mem_calls_takeUp_of_mem {f : Fleet} {c : OpenCall} (hc : c ∈ f.calls)
    (effect : Option Service.Effect) : c ∈ (System.takeUp f effect).calls := by
  rcases effect with _ | ⟨id, call⟩ | r
  · exact hc
  · exact List.mem_append_left _ hc
  · exact hc

theorem mem_calls_step_of_mem {c : OpenCall} (hc : c ∈ (s.engineStep e).1.calls) :
    c ∈ (s.step e).engines.calls := by
  rw [System.step_eq]
  cases s.relay e with
  | none => exact hc
  | some e' => exact mem_calls_takeUp_of_mem hc _

/-- The call of a submission returns when it goes on, and the request comes to wait. -/
theorem Written.proceed (h : Written s id p n) (hb : Backed s J) (ha : s.service.aborted = false) :
    (s.step (.engine (.proceed id))).service.stage? id = some (.thinking p n) := by
  obtain ⟨hid, c, hc, rfl, k, hp⟩ := h
  obtain ⟨hone, -, -⟩ := hb.only hc
  have hrelay : s.relay (.engine (.proceed c.task)) = some (.returned c.task .ok) := by
    rw [System.relay, engineStep_of_going ha]
    simp only [Fleet.step, Fleet.call?_of_calls hone, Fleet.proceed, hp]
    rfl
  rw [System.service_of_seen hrelay]
  exact Service.thinking_of_returned ha hid

theorem result?_append {s : System Fleet} {es : List Occurrence} {id : TaskId} {r : JobResult}
    (h : (s.after es).service.result? id = some r) (more : List Occurrence) :
    (s.after (es ++ more)).service.result? id = some r := by
  rw [System.after_append, System.service_after (s.after es)]
  exact Service.result?_after h _

/-- Nothing else gets in the way of a submission. -/
theorem Written.keep (h : Written s id p n) (hb : Backed s J) (ho : s.service.Orderly)
    (ha : s.service.aborted = false) (he : e ≠ .engine (.proceed id)) :
    Written (s.step e) id p n := by
  obtain ⟨hid, c, hc, rfl, k, hp⟩ := h
  obtain ⟨hone, -, -⟩ := hb.only hc
  have hkept : c ∈ (s.engineStep e).1.calls := by
    cases e with
    | start | run | hangUp => exact hc
    | engine e =>
      have hlaunched : c.progress ≠ .launching := by
        rw [hp]
        exact Progress.noConfusion
      rw [engineStep_of_going ha, Fleet.calls_step_of_ne hone hlaunched fun h => he (h ▸ rfl)]
      exact List.mem_singleton_self c
  refine ⟨?_, c, mem_calls_step_of_mem hkept, rfl, k, hp⟩
  cases hr : s.relay e with
  | none => exact System.service_of_unseen hr ▸ hid
  | some e' =>
    rw [System.service_of_seen hr]
    refine Service.submitting_stays ho ha hid ?_
    rintro r rfl
    rw [calls_of_returned hb.served ha hr] at hkept
    cases hkept

theorem Written.placed (h : Written s id p n) (hb : Backed s J) : Placed J n := by
  obtain ⟨hid, c, hc, rfl, k, hp⟩ := h
  obtain ⟨-, -, stage, hstage, hcall⟩ := hb.only hc
  cases hid.symm.trans hstage
  have hsub := hb.kept.submitting c hc _ n _ (Option.some.inj hcall).symm
  rw [hp] at hsub
  cases hsub with
  | written hsub => exact ⟨k, _, _, _, _, hsub⟩
  | failing hf => cases hf

/-- The line that starts the search is written, and nothing is left to do. -/
theorem written_of_go {armed : Option SearchId} (h : Custody s armed J) (hb : Backed s J)
    (ho : s.service.Orderly) (hid : s.service.stage? id = some (.submitting p n)) {k : Nat}
    {line : String} (hgo : .wrote line ∈ showing k Instance.marks s e) :
    Written (s.step e) id p n := by
  obtain ⟨ha, c, hc, rfl, i, x, rest, failure, hi, hp, -, hmark⟩ := calling_of_showing hgo trivial
  obtain ⟨hone, -, stage, hstage, hcall⟩ := hb.only hc
  cases ho.inside_unique hstage (Stage.isInside_of_call? hcall) hid rfl
  cases hid.symm.trans hstage
  have hunder := h.underway c hc _ n _ (Option.some.inj hcall).symm
  rw [hp] at hunder
  rw [hmark] at hgo
  cases hunder with
  | opening | broken => cases List.mem_singleton.1 hgo
  | @recorded _ line' =>
    have hopen : i.inputOpen = true := by
      by_contra hclosed
      simp [Instance.markOf, hclosed] at hgo
    have hcalls := (Fleet.calls_act hone k i []).2 line'
    rw [if_pos hopen] at hcalls
    rw [step_acting ha (Fleet.call?_of_calls hone) hp hi]
    refine ⟨hid, { c with progress := .acting k [] none }, ?_, rfl, k, rfl⟩
    rw [hcalls]
    exact List.mem_singleton_self _

end Step

section Run

variable {settings : EngineSettings} {table : Table} {policy : FailurePolicy}
  {es later : List Occurrence} {id : TaskId} {p : Profile} {n : SearchId}

/-- A request that waits takes the completion of its own search, and ends with it. -/
theorem Expects.step
    (h : Expects ((start settings table policy).after es)
      ((start settings table policy).relayed es) id p n)
    (hu : ((start settings table policy).after es).service.Undisturbed) (e : Occurrence) :
    Expects ((start settings table policy).after (es ++ [e]))
      ((start settings table policy).relayed (es ++ [e])) id p n := by
  rw [System.after_concat, System.relayed_concat]
  cases hr : ((start settings table policy).after es).relay e with
  | none =>
    have hservice := System.service_of_unseen hr
    cases h with
    | waits hid => exact .waits (hservice ▸ hid)
    | told hseen hid => exact .told (List.mem_append_left _ hseen) (hservice ▸ hid)
  | some e' =>
    have hservice := System.service_of_seen hr
    cases h with
    | told hseen hid =>
      refine .told (List.mem_append_left _ hseen) ?_
      rw [hservice]
      exact Service.finished_step hid e'
    | waits hid =>
      rcases hu.thinking_step (orderly_after_start settings table policy es) hid e' with
        hstays | ⟨o, hbox, hfinished⟩
      · exact .waits (hservice ▸ hstays)
      · rw [System.service_after] at hbox
        have hcompleted := Service.completed_of_holds settings table policy hbox
        exact .told (List.mem_append_left _ hcompleted) (hservice ▸ hfinished)

theorem Expects.after
    (h : Expects ((start settings table policy).after es)
      ((start settings table policy).relayed es) id p n)
    (hbehaves : Behaves (start settings table policy) (es ++ later)) :
    Expects ((start settings table policy).after (es ++ later))
      ((start settings table policy).relayed (es ++ later)) id p n := by
  induction later using List.reverseRecOn with
  | nil => rwa [List.append_nil]
  | append_singleton later e ih =>
    rw [← List.append_assoc] at hbehaves ⊢
    have hbefore := hbehaves.of_isPrefix (List.prefix_append _ [e])
    exact (ih hbefore).step (custody_after hbefore).1 e

theorem Expects.returns
    (h : Expects ((start settings table policy).after es)
      ((start settings table policy).relayed es) id p n)
    (hbehaves : Behaves (start settings table policy) (es ++ [.run id])) {k : Nat} {o : Outcome}
    (hdelivered : ⟨some n, o⟩ ∈ deliveriesOf (start settings table policy) k es) :
    ∃ r, ((start settings table policy).after (es ++ [.run id])).service.result? id = some r := by
  cases h with
  | told _ hid => exact ⟨_, result?_append (Service.result?_eq_some.2 hid) _⟩
  | waits hid =>
    have hgo := (custody_after hbehaves).1.going
    have ha := System.going_of_append hgo
    obtain ⟨r, hbox⟩ := reply_of_delivered ha hid hdelivered
    refine (returned_of_reply ha hid hbox).resolve_left ?_
    rw [hgo]
    exact Bool.false_ne_true

/-- From the submission on, a request expects the completion of its search as soon as its call has
gone on once more. -/
theorem expects_after (h : Behaves (start settings table policy) (es ++ later))
    (hw : Written ((start settings table policy).after es) id p n) :
    (Written ((start settings table policy).after (es ++ later)) id p n ∧
        .engine (.proceed id) ∉ later) ∨
      Expects ((start settings table policy).after (es ++ later))
        ((start settings table policy).relayed (es ++ later)) id p n := by
  induction later using List.reverseRecOn with
  | nil =>
    rw [List.append_nil]
    exact Or.inl ⟨hw, List.not_mem_nil⟩
  | append_singleton later e ih =>
    rw [← List.append_assoc] at h ⊢
    have hbefore := h.of_isPrefix (List.prefix_append _ [e])
    obtain ⟨hu, -⟩ := custody_after hbefore
    have hb := backed_after hu.going
    -- The call comes back the next time that it goes on; from then on the request waits.
    rcases ih hbefore with ⟨hw', hno⟩ | hexpects
    · by_cases he : e = .engine (.proceed id)
      · subst he
        have hthinking := hw'.proceed hb hu.going
        rw [← System.after_concat] at hthinking
        exact Or.inr (.waits hthinking)
      · left
        rw [System.after_concat]
        refine ⟨hw'.keep hb (orderly_after_start _ _ _ _) hu.going he, fun hmem => ?_⟩
        rcases List.mem_append.1 hmem with hmem | hmem
        · exact hno hmem
        · exact he (List.mem_singleton.1 hmem).symm
    · exact Or.inr (hexpects.step hu e)

end Run

/-! ## The answer to a search -/

section Run

variable {settings : EngineSettings} {table : Table} {policy : FailurePolicy}
  {es before middle later : List Occurrence} {record go : Occurrence} {k : Nat} {id : TaskId}
  {n : SearchId}

theorem Submits.recorded
    (h : Submits (start settings table policy) k id n before record middle go) :
    ∃ i, ((start settings table policy).after before).engines.instances[k]? = some i ∧
      showing k Instance.marks ((start settings table policy).after before) record =
        [.recorded n] := by
  cases hi : ((start settings table policy).after before).engines.instances[k]? with
  | none =>
    have hnone := (absent_step hi record).1
    rw [h.records] at hnone
    cases hnone
  | some i =>
    refine ⟨i, rfl, ?_⟩
    simp only [showing, hi, h.records]
    rfl

theorem Submits.once (h : Submits (start settings table policy) k id n before record middle go)
    (hes : es = before ++ record :: middle ++ go :: later) :
    ∃ marks, Once (journals settings table policy es) n k
      (journalOf (start settings table policy) k before) marks := by
  obtain ⟨i, -, hrecorded⟩ := h.recorded
  have hjournal : journals settings table policy es k =
      journalOf (start settings table policy) k before ++ .recorded n ::
        journalOf (((start settings table policy).after before).step record) k
          (middle ++ go :: later) := by
    rw [journals, hes, List.append_assoc, List.cons_append, journalOf_append, journalOf_cons,
      hrecorded]
    rfl
  obtain ⟨xs, ys, honce⟩ := (kept_after es).once k n (by rw [hjournal]; simp)
  obtain ⟨-, rfl, -⟩ := honce.unique hjournal
  exact ⟨ys, honce⟩

/-- A process whose reader goes on owes no answer when a search is recorded. -/
theorem Submits.owes_none
    (h : Submits (start settings table policy) k id n before record middle go)
    (hbehaves : Behaves (start settings table policy) before) {i : Instance}
    (hi : ((start settings table policy).after before).engines.instances[k]? = some i)
    (hl : i.Live) :
    (answersHeard (start settings table policy) k before).length =
      goesWritten (start settings table policy) k before := by
  obtain ⟨hu, hcustody⟩ := custody_after hbehaves
  have hrecord : .record n ∈ deedsOf ((start settings table policy).after before) k record := by
    rw [h.records]
    exact List.mem_singleton_self _
  obtain ⟨-, -, c, hc, -, a, rest, failure, hp, ha⟩ := calling_of_mem hrecord trivial
  obtain rfl : a = .record n := by cases a <;> cases ha; rfl
  obtain ⟨hclear, -, hno⟩ := hcustody.recording (backed_after hu.going) hi hc hp
  have howed := hclear.owed_eq_zero hno hl
  have hasked := hbehaves.journals_asked k
  exact Nat.le_antisymm hasked (Nat.le_of_sub_eq_zero howed)

/-- What has been heard when a search is recorded are answers to earlier searches. -/
theorem Behaves.heard_le (h : Behaves (start settings table policy) es) (k : Nat) :
    (answersHeard (start settings table policy) k es).length ≤
      goesWritten (start settings table policy) k es := h.journals_asked k

/-- The completion of a search tells of the answer with its number, or of the exit of the engine if
there is none. -/
theorem Submits.outcome (h : Submits (start settings table policy) k id n before record middle go)
    (hbehaves : Behaves (start settings table policy) es)
    (hes : es = before ++ record :: middle ++ go :: later) {o : Outcome}
    (hcompleted : .completed ⟨some n, o⟩ ∈ (start settings table policy).relayed es) :
    o = ((answersPrinted (start settings table policy) k es)[
      goesWritten (start settings table policy) k before]?).getD .engineExited := by
  have hsplit : es = before ++ (record :: middle ++ go :: later) := by simp [hes]
  have hbefore := hbehaves.of_isPrefix (hsplit ▸ List.prefix_append before _)
  obtain ⟨marks, honce⟩ := h.once hes
  rcases answer_of_completed honce hcompleted with hanswer | ⟨rfl, xs, ys, hjournal, hxs⟩
  -- The answer was heard, so the reader went on when the search was recorded.
  · obtain ⟨i, hi, -⟩ := h.recorded
    have hlive : i.Live := by
      by_contra hdead
      rw [hsplit, (answersHeard_of_dead hi hdead).2, List.getElem?_eq_none (Nat.le_refl _)]
        at hanswer
      cases hanswer
    rw [← h.owes_none hbefore hi hlive,
      getElem?_of_isPrefix (answersHeard_isPrefix_printed k es) hanswer]
    rfl
  · cases hi : ((start settings table policy).after es).engines.instances[k]? with
    | none =>
      have hnone := process_after settings table policy k es
      rw [hi] at hnone
      rw [journalOf, hnone.2] at hjournal
      simp at hjournal
    | some i =>
      obtain ⟨model, deeds, rfl, hshown⟩ := process_of_some hi
      have hlooked : (Instance.new model).journal deeds = xs ++ .looked :: ys := by
        rw [← hjournal, journalOf, hshown]
        rfl
      -- After the look nothing is heard, so the answer with this number has not been printed.
      have hdead : ¬((Instance.new model).performs deeds).Live :=
        Instance.dead_of_looked model (by rw [hlooked]; simp)
      have hall : answersPrinted (start settings table policy) k es =
          answersHeard (start settings table policy) k before := by
        rw [← (answersHeard_of_dead hi hdead).1, ← hxs, answersHeard, hjournal]
        have hrest : heard (.looked :: ys) = heard ys := rfl
        rw [heard_append, hrest, Instance.heard_after_looked model hlooked, List.append_nil]
      rw [hall, List.getElem?_eq_none (hbefore.heard_le k)]
      rfl

/-- From its submission on a request expects the completion of its search, as soon as its call has
come back. -/
theorem Submits.expects (h : Submits (start settings table policy) k id n before record middle go)
    (hbehaves : Behaves (start settings table policy) es)
    (hes : es = before ++ record :: middle ++ go :: later) {p : Profile}
    (hid : ((start settings table policy).after (before ++ record :: middle)).service.stage? id =
      some (.submitting p n)) :
    (Written ((start settings table policy).after es) id p n ∧ .engine (.proceed id) ∉ later) ∨
      Expects ((start settings table policy).after es)
        ((start settings table policy).relayed es) id p n := by
  obtain ⟨limits, hstarts⟩ := h.starts
  have hsplit : es = (before ++ record :: middle) ++ (go :: later) := hes
  have hbefore := hbehaves.of_isPrefix (hsplit ▸ List.prefix_append _ _)
  obtain ⟨hu, hcustody⟩ := custody_after hbefore
  have hwritten := written_of_go hcustody (backed_after hu.going) (orderly_after_start _ _ _ _) hid
    (by rw [hstarts]; exact List.mem_singleton_self _)
  rw [← System.after_concat] at hwritten
  have hgo : es = (before ++ record :: middle ++ [go]) ++ later := by simp [hes]
  rw [hgo] at hbehaves ⊢
  exact expects_after hbehaves hwritten

/-- An answer that has been printed gives rise to a completion, when the reader has taken two steps
for every line. -/
theorem Submits.completed (h : Submits (start settings table policy) k id n before record middle go)
    {more : List Occurrence} (hbehaves : Behaves (start settings table policy) (es ++ more))
    (hes : es = before ++ record :: middle ++ go :: later)
    (hplaced : Placed (journals settings table policy (es ++ more)) n)
    (hanswer : goesWritten (start settings table policy) k before <
      (answersPrinted (start settings table policy) k es).length)
    (hreads : 2 * (linesPrinted (start settings table policy) k es).length ≤
      more.countP (readsOf k)) :
    ∃ o, ⟨some n, o⟩ ∈
      completions none (journalOf (start settings table policy) k (es ++ more)) := by
  have hes' : es ++ more = before ++ record :: middle ++ go :: (later ++ more) := by simp [hes]
  have hsplit : es ++ more = before ++ (record :: middle ++ go :: (later ++ more)) := by simp [hes]
  obtain ⟨marks, honce⟩ := h.once hes'
  obtain ⟨j, limits, xs, during, ys, hsubmitted⟩ := hplaced
  obtain ⟨rfl, rfl, -⟩ := honce.unique hsubmitted.once.journal
  have hjournal : journalOf (start settings table policy) j (es ++ more) = _ :=
    hsubmitted.once.journal
  -- If nothing had touched the search, no answer would have been heard since it was recorded. But
  -- one was printed, and there was the time to hear it.
  have htouched : ¬∀ a ∈ during ++ .wrote (goCommand limits) :: ys, a.Keeps := by
    intro hkeeps
    have hnone : answersHeard (start settings table policy) j (es ++ more) =
        answersHeard (start settings table policy) j before := by
      have hrest : heard (.recorded n :: (during ++ .wrote (goCommand limits) :: ys)) =
          heard (during ++ .wrote (goCommand limits) :: ys) := rfl
      rw [answersHeard, hjournal, heard_append, hrest, answers_append, answers_of_keeps hkeeps,
        List.append_nil]
      rfl
    have hheard := (heard_in_time (custody_after hbehaves).1.going hreads).length_le
    have hle := (hbehaves.of_isPrefix (hsplit ▸ List.prefix_append before _)).heard_le j
    rw [hnone] at hheard
    omega
  rw [hjournal]
  exact completion_of_touched hsubmitted.quiet_of_not_keeps htouched

end Run

/-! ## Every run -/

/-- What a run says of the rules of the handoff and of the answers that requests get. -/
structure AnswerAccount (s : System Fleet) (es : List Occurrence) : Prop where
  /-- The process is not ended. -/
  going : (s.after es).service.aborted = false
  /-- A task that comes to arm the slot is issued the next number. -/
  armed : ∀ id p fen, (s.after es).service.stage? id = some (.positioning p fen) →
    (s.after es).service.handoff.arm.1 = .ok ⟨(s.after es).service.handoff.issued + 1⟩
  /-- A completion that is delivered is taken. -/
  taken : ∀ e c, (s.after es).relay e = some (.completed c) →
    ((s.after es).service.handoff.fulfill c).1 = .ok ()
  /-- No request is told of a broken rule. -/
  lawful : ∀ id e, (s.after es).service.result? id ≠ some (.move (.error (.handoff e)))
  /-- A request that waits has asked a process. -/
  asked : ∀ id p n, (s.after es).service.stage? id = some (.thinking p n) →
    ∃ k j, Asks s es k id p j
  /-- The call of a request that has asked comes back when it goes on. -/
  back : ∀ xs ys k id p j, es = xs ++ .engine (.proceed id) :: ys → Asks s xs k id p j →
    ∀ n, (s.after es).service.stage? id ≠ some (.submitting p n)
  /-- A request that has asked for an answer gets this one and no other. Without one it learns that
  the engine has exited. -/
  own : ∀ k id p j r, Asks s es k id p j → (s.after es).service.result? id = some r →
    r = .move ((((answersPrinted s k es)[j]?).getD .engineExited).result p.model)
  /-- It has the answer after its next turn, when that has been printed, its call has come back, and
  the reader has taken two steps for every line and one more. -/
  returned : ∀ xs ys zs k id p j o, es = xs ++ ys ++ zs → Asks s xs k id p j →
    (answersPrinted s k xs)[j]? = some o →
    2 * (linesPrinted s k xs).length < ys.countP (readsOf k) →
    (∀ n, (s.after (xs ++ ys)).service.stage? id ≠ some (.submitting p n)) → .run id ∈ zs →
    (s.after es).service.result? id = some (.move (o.result p.model))

section Run

variable {settings : EngineSettings} {table : Table} {policy : FailurePolicy}
  {es : List Occurrence} {k j : Nat} {id : TaskId} {p : Profile} {n : SearchId}

theorem Asks.append {s : System Fleet} (h : Asks s es k id p j) (more : List Occurrence) :
    Asks s (es ++ more) k id p j := by
  obtain ⟨n, before, record, middle, go, later, rfl, h⟩ := h
  exact ⟨n, before, record, middle, go, later ++ more, by simp, h⟩

theorem Behaves.lawful (h : Behaves (start settings table policy) es) (id : TaskId)
    (e : HandoffError) :
    ((start settings table policy).after es).service.result? id ≠
      some (.move (.error (.handoff e))) := by
  rw [System.service_after]
  refine Service.not_handoff_of_uncrashed (uncrashed_relayed _ es) (fun seen hseen => ?_) id e
  obtain ⟨before, hbefore, rfl⟩ := System.of_prefix_relayed hseen
  have hreplies := (custody_after (h.of_isPrefix hbefore)).1.unerring
  rwa [System.service_after] at hreplies

theorem asks_of_thinking (h : Behaves (start settings table policy) es)
    (hid : ((start settings table policy).after es).service.stage? id = some (.thinking p n)) :
    ∃ k j, Asks (start settings table policy) es k id p j := by
  obtain ⟨k, before, record, middle, go, later, marks, hes, -, hsubmits⟩ :=
    submits_of_thinking (custody_after h).1.going hid
  obtain ⟨p', hstarting⟩ := hsubmits.starting
  have hp : p' = p := by
    rcases hsubmits.expects h hes hstarting with ⟨⟨hwritten, -⟩, -⟩ | ⟨⟨hwaits⟩ | ⟨-, htold⟩⟩
    · cases hid.symm.trans hwritten
    · cases hid.symm.trans hwaits
      rfl
    · cases hid.symm.trans htold
  subst hp
  exact ⟨k, _, n, before, record, middle, go, later, hes, hsubmits, hstarting, rfl⟩

/-- A request that has asked gets the answer that it has asked for. -/
theorem Asks.own (hasks : Asks (start settings table policy) es k id p j)
    (h : Behaves (start settings table policy) es) {r : JobResult}
    (hr : ((start settings table policy).after es).service.result? id = some r) :
    r = .move ((((answersPrinted (start settings table policy) k es)[j]?).getD
      .engineExited).result p.model) := by
  obtain ⟨n, before, record, middle, go, later, hes, hsubmits, hstarting, rfl⟩ := hasks
  rw [Service.result?_eq_some] at hr
  rcases hsubmits.expects h hes hstarting with ⟨⟨hwritten, -⟩, -⟩ | ⟨⟨hwaits⟩ | ⟨hseen, htold⟩⟩
  · cases hr.symm.trans hwritten
  · cases hr.symm.trans hwaits
  · cases hr.symm.trans htold
    rw [hsubmits.outcome h hes hseen]

/-- The search of a request that has asked is delivered in time, or the request has its result. -/
theorem Submits.delivered {before middle later : List Occurrence} {record go : Occurrence}
    (hsubmits : Submits (start settings table policy) k id n before record middle go)
    (hes : es = before ++ record :: middle ++ go :: later)
    (hstarting : ((start settings table policy).after (before ++ record :: middle)).service.stage?
      id = some (.submitting p n))
    (hanswer : goesWritten (start settings table policy) k before <
      (answersPrinted (start settings table policy) k es).length)
    {more : List Occurrence} (h : Behaves (start settings table policy) (es ++ more))
    (hreads : 2 * (linesPrinted (start settings table policy) k es).length <
      more.countP (readsOf k)) :
    (∃ o, ⟨some n, o⟩ ∈ deliveriesOf (start settings table policy) k (es ++ more)) ∨
      ∃ r, ((start settings table policy).after (es ++ more)).service.result? id = some r := by
  -- The last step of the reader delivers; all those before it are enough to take the lines.
  obtain ⟨xs, ys, rfl, hxs⟩ := exists_last_read hreads
  have hsplit : es ++ (xs ++ .engine (.read k) :: ys) = (es ++ xs) ++ .engine (.read k) :: ys := by
    simp
  have hread : es ++ (xs ++ .engine (.read k) :: ys) =
      (es ++ xs ++ [.engine (.read k)]) ++ ys := by simp
  have hbehaves : Behaves (start settings table policy) (es ++ xs) :=
    h.of_isPrefix (hsplit ▸ List.prefix_append _ _)
  have hgo := (custody_after hbehaves).1.going
  have hplaced : Placed (journals settings table policy (es ++ xs)) n →
      ∃ o, ⟨some n, o⟩ ∈ deliveriesOf (start settings table policy) k
        (es ++ (xs ++ .engine (.read k) :: ys)) := by
    intro hplaced
    obtain ⟨o, ho⟩ := hsubmits.completed hbehaves hes hplaced hanswer hxs
    refine ⟨o, ?_⟩
    rw [hread, deliveriesOf_append]
    exact List.mem_append_left _ (delivered_of_completion hgo ho)
  have hxs' : es ++ xs = before ++ record :: middle ++ go :: (later ++ xs) := by simp [hes]
  rcases hsubmits.expects hbehaves hxs' hstarting with ⟨hwritten, -⟩ | ⟨⟨hwaits⟩ | ⟨-, htold⟩⟩
  · exact Or.inl (hplaced (hwritten.placed (backed_after hgo)))
  · exact Or.inl (hplaced ((kept_after (es ++ xs)).thinking id p n hwaits))
  · rw [hsplit]
    exact Or.inr ⟨_, result?_append (Service.result?_eq_some.2 htold) _⟩

theorem Asks.back {xs ys : List Occurrence} (hasks : Asks (start settings table policy) xs k id p j)
    (hes : es = xs ++ .engine (.proceed id) :: ys) (h : Behaves (start settings table policy) es)
    (n : SearchId) :
    ((start settings table policy).after es).service.stage? id ≠ some (.submitting p n) := by
  obtain ⟨m, before, record, middle, go, later, rfl, hsubmits, hstarting, -⟩ := hasks
  have hes' : es = before ++ record :: middle ++ go :: (later ++ .engine (.proceed id) :: ys) := by
    simp [hes]
  intro hid
  rcases hsubmits.expects h hes' hstarting with ⟨-, hno⟩ | ⟨⟨hwaits⟩ | ⟨-, htold⟩⟩
  · exact hno (by simp)
  · cases hid.symm.trans hwaits
  · cases hid.symm.trans htold

/-- A request that has asked for an answer that is printed returns it in time. -/
theorem Asks.returned {xs ys zs : List Occurrence} {o : Outcome}
    (hasks : Asks (start settings table policy) xs k id p j)
    (h : Behaves (start settings table policy) (xs ++ ys ++ zs))
    (hanswer : (answersPrinted (start settings table policy) k xs)[j]? = some o)
    (hreads : 2 * (linesPrinted (start settings table policy) k xs).length <
      ys.countP (readsOf k))
    (hback : ∀ n, ((start settings table policy).after (xs ++ ys)).service.stage? id ≠
      some (.submitting p n)) (hrun : .run id ∈ zs) :
    ((start settings table policy).after (xs ++ ys ++ zs)).service.result? id =
      some (.move (o.result p.model)) := by
  have hresult : ∃ r, ((start settings table policy).after (xs ++ ys ++ zs)).service.result? id =
      some r := by
    obtain ⟨n, before, record, middle, go, later, hxs, hsubmits, hstarting, rfl⟩ := hasks
    have hys := h.of_isPrefix (List.prefix_append (xs ++ ys) zs)
    have hxs' : xs ++ ys = before ++ record :: middle ++ go :: (later ++ ys) := by simp [hxs]
    have hexpects := (hsubmits.expects hys hxs' hstarting).resolve_left fun hwritten =>
      hback n hwritten.1.stage
    have hlength := (List.getElem?_eq_some_iff.1 hanswer).1
    -- The search is delivered in time, and then the next turn of the task ends it.
    rcases hsubmits.delivered hxs hstarting hlength hys hreads with ⟨o, hdelivered⟩ | ⟨r, hr⟩
    · obtain ⟨zs, more, rfl⟩ := List.append_of_mem hrun
      have hturn : xs ++ ys ++ (zs ++ .run id :: more) = (xs ++ ys ++ zs ++ [.run id]) ++ more := by
        simp
      rw [hturn] at h ⊢
      have hbefore := h.of_isPrefix (List.prefix_append _ more)
      have hexpects' := hexpects.after (hbefore.of_isPrefix (List.prefix_append _ _))
      obtain ⟨r, hr⟩ := hexpects'.returns hbefore
        (by rw [deliveriesOf_append]; exact List.mem_append_left _ hdelivered)
      exact ⟨r, result?_append hr more⟩
    · exact ⟨r, result?_append hr zs⟩
  obtain ⟨r, hr⟩ := hresult
  have hprinted : answersPrinted (start settings table policy) k xs <+:
      answersPrinted (start settings table policy) k (xs ++ (ys ++ zs)) :=
    answersPrinted_isPrefix k xs (ys ++ zs)
  rw [← List.append_assoc] at hprinted
  rw [hr, ((hasks.append ys).append zs).own h hr, getElem?_of_isPrefix hprinted hanswer]
  rfl

end Run

theorem behaves_iff {settings : EngineSettings} {table : Table} {policy : FailurePolicy}
    {es : List Occurrence} :
    Behaves (start settings table policy) es ↔
      ∀ times ≤ es.length, ∀ k < ((start settings table policy).after
        (es.take times)).engines.instances.length,
          (answersPrinted (start settings table policy) k (es.take times)).length ≤
              goesWritten (start settings table policy) k (es.take times) ∧
            ((start settings table policy).after (es.take times)).engines.races k = false := by
  constructor
  · intro h times _ k _
    exact ⟨h.asked _ (List.take_prefix times es) k, h.unraced _ (List.take_prefix times es) k⟩
  · intro h
    -- A process that is not there yet has printed nothing and races with nobody.
    have hall : ∀ before, before <+: es → ∀ k,
        (answersPrinted (start settings table policy) k before).length ≤
            goesWritten (start settings table policy) k before ∧
          ((start settings table policy).after before).engines.races k = false := by
      intro before hbefore k
      cases hi : ((start settings table policy).after before).engines.instances[k]? with
      | none =>
        have hnone := linesPrinted_of_absent hi
        rw [linesPrinted] at hnone
        refine ⟨?_, by simp [Fleet.races, hi]⟩
        rw [answersPrinted, hnone]
        exact Nat.zero_le _
      | some i =>
        rw [List.prefix_iff_eq_take.1 hbefore] at hi ⊢
        exact h _ hbefore.length_le k (List.getElem?_eq_some_iff.1 hi).1
    exact ⟨fun before hb k => (hall before hb k).1, fun before hb k => (hall before hb k).2⟩

instance (settings : EngineSettings) (table : Table) (policy : FailurePolicy)
    (es : List Occurrence) : Decidable (Behaves (start settings table policy) es) :=
  decidable_of_iff _ behaves_iff.symm

/-! ## Two requests with one process -/

/-- Two requests come at once, and the process answers them one after the other. -/
def paired : List Occurrence :=
  [.start (bareKings 2 5), .start (bareKings 2 5), .run 0, .run 1] ++ opens 0 0 ++ plays 0 0 ++
    prints 0 "bestmove a2a3\n" ++ [.engine (.read 0), .run 0, .run 1] ++ plays 1 0 ++
    prints 0 "bestmove b2b3\n" ++ [.engine (.read 0), .run 1]

/-- The bytes of a text of ASCII characters. -/
def bytesOf (text : String) : List UInt8 := text.toList.map fun c => c.toNat.toUInt8

/-- All answers among lines, also those after a line that is not UTF-8. -/
def answerLines (ls : List (List UInt8)) : List Outcome :=
  ls.filterMap fun bytes => (decodeUtf8? bytes).bind fun line => (Reply.read line).outcome?

/-- A process answers the only search that it is told to start, and prints a line before that which
is not UTF-8. -/
def unheard : List Occurrence :=
  [.start (bareKings 2 5), .run 0] ++ opens 0 0 ++ plays 0 0 ++
    [.engine (.print 0 (bytesOf "info " ++ [255] ++ bytesOf "\nbestmove h2h3\n")),
      .engine (.read 0), .engine (.read 0), .engine (.read 0), .run 0]

end Sparring.Uci
