import Sparring.Proofs.Service.Waiting
import Sparring.Proofs.Uci.Submission

/-!
# Which answer a request gets

An engine answers the searches it was given one after the other, so its answers have numbers. The
move that a request returns is the first answer that the reader of its process had not heard when
the search was recorded (`answer_by_number`). That is the answer to its own search if the process
owed none at that moment. If it did owe one, because an earlier request had gone away before its
answer came, the request gets an answer that was meant for another.
-/

namespace Sparring.Uci

/-! ## Answers -/

/-- The outcome that a reply reports. -/
def Reply.outcome? : Reply → Option Outcome
  | .bestMove o => some o
  | _ => none

/-- The outcomes that replies report. -/
def answers (rs : List Reply) : List Outcome := rs.filterMap Reply.outcome?

/-- Whether a mark is the writing of a line that starts a search. -/
def Mark.isGo : Mark → Bool
  | .wrote line => line.toList.take 3 = "go ".toList
  | _ => false

section Counts

variable (s : System Fleet) (k : Nat) (es : List Occurrence)

/-- The answers of a process that its reader has heard. -/
def answersHeard : List Outcome := answers (heard (journalOf s k es))

/-- Whether the output of a process is open. -/
def outputOpen : Bool := ((s.after es).engines.instances[k]?).all (·.outputOpen)

/-- The answers that a process has printed. -/
def answersPrinted : List Outcome :=
  answers (replies (lines (printoutOf s k es) (outputOpen s k es)))

/-- How many searches a process has been told to start. -/
def goesWritten : Nat := (journalOf s k es).countP Mark.isGo

/-- How often a process has printed that it is ready. -/
def readyPrinted : Nat :=
  (replies (lines (printoutOf s k es) (outputOpen s k es))).count (.ack .readyOk)

/-- How often a process has been asked whether it is ready. -/
def readyAsked : Nat := (journalOf s k es).count (.wrote readyCommand)

/-- Whether a process has printed nothing that it was not asked for. -/
structure Disciplined : Prop where
  answers : (answersPrinted s k es).length ≤ goesWritten s k es
  acks : readyPrinted s k es ≤ readyAsked s k es

instance : Decidable (Disciplined s k es) :=
  decidable_of_iff _ ⟨fun h => ⟨h.1, h.2⟩, fun h => And.intro h.answers h.acks⟩

/-- Whether the reader of a process has yet to hear the answer to a search it was told to start. -/
def Owes : Prop := (answersHeard s k es).length < goesWritten s k es

end Counts

theorem answers_append (xs ys : List Reply) : answers (xs ++ ys) = answers xs ++ answers ys :=
  List.filterMap_append

/-- A mark that leaves the current search alone is no answer. -/
theorem answers_of_keeps {marks : List Mark} (h : ∀ a ∈ marks, a.Keeps) :
    answers (heard marks) = [] := by
  induction marks with
  | nil => rfl
  | cons a marks ih =>
    have ha : answers (heard [a]) = [] := by
      cases a with
      | heard r =>
        cases r with
        | bestMove o =>
          have := h _ List.mem_cons_self (some default)
          cases this
        | ack | other => rfl
      | recorded | withdrawn | wrote | took | looked => rfl
    rw [show a :: marks = [a] ++ marks from rfl, heard_append, answers_append, ha,
      ih fun b hb => h b (List.mem_cons_of_mem _ hb)]
    rfl

theorem isGo_goCommand (limits : SearchLimits) : (Mark.wrote (goCommand limits)).isGo = true := by
  simp only [Mark.isGo, goCommand, List.cons_append, String.intercalate_cons_cons]
  simp [String.toList_append]

theorem countP_isGo_of_quiet {marks : List Mark} (h : ∀ a ∈ marks, ¬a.OfCall) :
    marks.countP Mark.isGo = 0 := by
  rw [List.countP_eq_zero]
  intro a ha hgo
  cases a with
  | wrote line => exact h _ ha trivial
  | recorded | withdrawn | heard | took | looked => cases hgo

/-- How a request submits its search to a process: it has the search recorded after the events
`before`, and the next line that the process gets is the one that starts this search. -/
structure Submits (s : System Fleet) (k : Nat) (id : TaskId) (n : SearchId)
    (before : List Occurrence) (record : Occurrence) (middle : List Occurrence) (go : Occurrence) :
    Prop where
  recording : ∃ p, (s.after before).service.stage? id = some (.submitting p n)
  records : deedsOf (s.after before) k record = [.record n]
  starting : ∃ p, (s.after (before ++ record :: middle)).service.stage? id = some (.submitting p n)
  starts : ∃ limits, showing k Instance.marks (s.after (before ++ record :: middle)) go =
    [.wrote (goCommand limits)]
  /-- No other search is started in between. -/
  next : goesWritten s k (before ++ record :: middle) = goesWritten s k before
  counted : goesWritten s k (before ++ record :: middle ++ [go]) = goesWritten s k before + 1

/-- Where the move of a request comes from. The answers of a process are numbered from zero, and so
are the searches that it is told to start: the answer to a search has its number. -/
def Answered (s : System Fleet) (es : List Occurrence) (id : TaskId) (m : Move) : Prop :=
  ∃ k n before record middle go later, es = before ++ record :: middle ++ go :: later ∧
    Submits s k id n before record middle go ∧
    (answersPrinted s k es)[(answersHeard s k before).length]? = some (.move m) ∧
    (Disciplined s k before →
      (answersHeard s k before).length ≤ goesWritten s k before ∧
        ((answersHeard s k before).length = goesWritten s k before ↔ ¬Owes s k before))

/-- A call makes a mark while a task has a search: it is the call to submit that search. -/
theorem submitting_of_showing {s : System Fleet} (hs : Served s) (ho : s.service.Orderly)
    {id : TaskId} {n : SearchId} (hn : s.service.Seeks id n) {k : Nat} {e : Occurrence} {a : Mark}
    (h : a ∈ showing k Instance.marks s e) (ha : a.OfCall) :
    ∃ p, s.service.stage? id = some (.submitting p n) := by
  obtain ⟨-, c, hc, -⟩ := calling_of_showing h ha
  obtain ⟨stage, hid, hsearch⟩ := hn
  cases hs with
  | idle hnone _ =>
    rw [hnone] at hc
    cases hc
  | busy _ hid' hcall _ =>
    cases ho.inside_unique hid' (Stage.isInside_of_call? hcall) hid
      (Stage.isInside_of_search? hsearch)
    cases hid'.symm.trans hid
    cases stage with
    | submitting p m =>
      cases hsearch
      exact ⟨p, hid⟩
    | thinking => cases hcall
    | waiting | setup | startingGame | positioning | finished => cases hsearch

section Run

variable {settings : EngineSettings} {table : Table} {policy : FailurePolicy}

theorem answersHeard_isPrefix_printed (k : Nat) (es : List Occurrence) :
    answersHeard (start settings table policy) k es <+:
      answersPrinted (start settings table policy) k es := by
  unfold answersHeard answersPrinted outputOpen
  cases hi : ((start settings table policy).after es).engines.instances[k]? with
  | none =>
    have h := process_after settings table policy k es
    rw [hi] at h
    rw [journalOf, h.2]
    exact List.nil_prefix
  | some i => exact (heard_of_journal hi).filterMap _

/-- A task that waits for its reply has submitted its search, and this is where. -/
theorem submits_of_thinking {es : List Occurrence}
    (ha : ((start settings table policy).after es).service.aborted = false) {id : TaskId}
    {p : Profile} {n : SearchId}
    (hid : ((start settings table policy).after es).service.stage? id = some (.thinking p n)) :
    ∃ k before record middle go later marks, es = before ++ record :: middle ++ go :: later ∧
      Once (journals settings table policy es) n k
        (journalOf (start settings table policy) k before) marks ∧
      Submits (start settings table policy) k id n before record middle go := by
  obtain ⟨k, limits, xs, ys, zs, hsub⟩ := (kept_after es).thinking id p n hid
  have hjournal : journalOf (start settings table policy) k es = _ := hsub.once.journal
  obtain ⟨before, record, rest, rfl, rfl, hrecord, hrest⟩ := split_journal hjournal trivial
  obtain ⟨middle, go, later, rfl, hmiddle, hgo, -⟩ := split_journal hrest trivial
  have hes : before ++ record :: (middle ++ go :: later) =
      before ++ record :: middle ++ go :: later := by simp
  have hupto : before ++ record :: middle = before ++ [record] ++ middle := by simp
  rw [hes] at ha hid hsub ⊢
  rw [← System.after_append, ← hupto] at hgo
  have hgoing := System.going_of_append ha
  have hgoing' := System.going_of_append hgoing
  have hmem : Mark.recorded n ∈
      showing k Instance.marks ((start settings table policy).after before) record := by
    rw [hrecord]
    exact List.mem_singleton_self _
  have hmem' : Mark.wrote (goCommand limits) ∈ showing k Instance.marks
      ((start settings table policy).after (before ++ record :: middle)) go := by
    rw [hgo]
    exact List.mem_singleton_self _
  have hnumber := Kept.issued_of_record (served_after hgoing') (numbered_after_start before) hmem
  -- From the recording on the task has its search.
  have hseeks' : ((start settings table policy).after (before ++ record :: middle)).service.Seeks
      id n := by
    refine System.seeks_of_append ⟨_, hid, rfl⟩ ?_
    rw [hnumber]
    exact System.issued_le_append _ _ _
  have hseeks := System.seeks_of_append hseeks' (Nat.le_of_eq hnumber)
  have hnext : goesWritten (start settings table policy) k (before ++ record :: middle) =
      goesWritten (start settings table policy) k before := by
    rw [goesWritten, hupto, journalOf_append, journalOf_append, hmiddle, journalOf_cons, hrecord,
      List.countP_append, List.countP_append, countP_isGo_of_quiet hsub.during_quiet]
    rfl
  refine ⟨k, before, record, middle, go, later, _, rfl, hsub.once, ?_, record_of_showing hmem, ?_,
    ⟨limits, hgo⟩, hnext, ?_⟩
  · exact submitting_of_showing (served_after hgoing') (orderly_after_start _ _ _ _) hseeks hmem
      trivial
  · exact submitting_of_showing (served_after hgoing) (orderly_after_start _ _ _ _) hseeks' hmem'
      trivial
  · rw [← hnext, goesWritten, journalOf_append, List.countP_append, journalOf_cons, hgo]
    simp [goesWritten, journalOf, shown, isGo_goCommand]

theorem answersHeard_isPrefix_append (s : System Fleet) (k : Nat) (xs ys : List Occurrence) :
    answersHeard s k xs <+: answersHeard s k (xs ++ ys) := by
  rw [answersHeard, answersHeard, journalOf_append, heard_append, answers_append]
  exact List.prefix_append _ _

/-- A completion that reaches the service tells of an answer that has been heard, the first since
its search was recorded, or of the look at the end, before which none has been heard. -/
theorem answer_of_completed {es before : List Occurrence} {n : SearchId} {k : Nat}
    {marks : List Mark} {o : Outcome}
    (honce : Once (journals settings table policy es) n k
      (journalOf (start settings table policy) k before) marks)
    (h : .completed ⟨some n, o⟩ ∈ (start settings table policy).relayed es) :
    (answersHeard (start settings table policy) k es)[
        (answersHeard (start settings table policy) k before).length]? = some o ∨
      o = .engineExited ∧ ∃ xs ys,
        journalOf (start settings table policy) k es = xs ++ .looked :: ys ∧
        answers (heard xs) = answersHeard (start settings table policy) k before := by
  obtain ⟨j, hdelivered⟩ := delivered_of_relayed h
  obtain ⟨xs, during, a, later, hjournal, hduring, ha⟩ :=
    mem_completions (completion_of_delivered hdelivered)
  have hjournal' := hjournal
  rw [List.append_assoc, List.cons_append] at hjournal'
  obtain ⟨rfl, rfl, -⟩ := honce.unique hjournal'
  have hnone : answers (heard (journalOf (start settings table policy) j before ++
      .recorded n :: during)) = answersHeard (start settings table policy) j before := by
    have hrest : heard (.recorded n :: during) = heard during := rfl
    rw [heard_append, hrest, answers_append, answers_of_keeps hduring, List.append_nil]
    rfl
  -- No answer is heard while the search is current, so what ends that has its number.
  rcases ha with rfl | ⟨rfl, rfl⟩
  · left
    rw [answersHeard, hjournal, heard_append, answers_append, hnone,
      List.getElem?_append_right (Nat.le_refl _), Nat.sub_self]
    rfl
  · exact Or.inr ⟨rfl, _, later, hjournal, hnone⟩

/-- The move that a request returns is an answer of the process that it has submitted its search
to: the first one that had not been heard when the search was recorded. A process that prints
nothing before it is asked has answered the search itself exactly if it owed no answer then, and
has answered an earlier one if it did. -/
theorem answer_by_number {es : List Occurrence} {id : TaskId} {m : Move}
    (h : ((start settings table policy).after es).service.result? id = some (.move (.ok m))) :
    Answered (start settings table policy) es id m := by
  rw [System.service_after] at h
  rcases Service.told_of_result settings table policy h with
    (⟨_, hfailed⟩ | ⟨_, hfailed⟩) | ⟨seen, n, reply, hseen, ha, p, hid, hbox, hreply⟩
  · cases hfailed
  · cases hfailed
  obtain rfl := Service.reply_of_result hreply
  obtain ⟨found, ⟨rest, rfl⟩, rfl⟩ := System.of_prefix_relayed hseen
  have hcompleted := Service.completed_of_holds settings table policy hbox
  have ha' : ((start settings table policy).after found).service.aborted = false := by
    rw [System.service_after]
    exact ha
  have hid' : ((start settings table policy).after found).service.stage? id =
      some (.thinking p n) := by
    rw [System.service_after]
    exact hid
  -- The task waited when its reply came, so its search stands in the journal of a process.
  obtain ⟨k, before, record, middle, go, later, marks, rfl, honce, hsubmits⟩ :=
    submits_of_thinking ha' hid'
  refine ⟨k, n, before, record, middle, go, later ++ rest, by simp, hsubmits, ?_, ?_⟩
  · have hheard : answersHeard (start settings table policy) k
        (before ++ record :: middle ++ go :: later) <+: answersPrinted (start settings table policy)
          k (before ++ record :: middle ++ go :: later ++ rest) :=
      (answersHeard_isPrefix_append _ _ _ _).trans (answersHeard_isPrefix_printed k _)
    rcases answer_of_completed honce hcompleted with hanswer | ⟨hexited, -⟩
    · exact getElem?_of_isPrefix hheard hanswer
    · cases hexited
  · intro hd
    have hheard : answersHeard (start settings table policy) k before <+:
        answersPrinted (start settings table policy) k before :=
      answersHeard_isPrefix_printed k before
    have hasked := Nat.le_trans hheard.length_le hd.answers
    rw [Owes, Nat.not_lt]
    exact ⟨hasked, Nat.le_of_eq ∘ Eq.symm, Nat.le_antisymm hasked⟩

end Run

/-! ## A run in which an answer goes astray -/

/-- A request at difficulty 0.1 gets its move from a process of its own. A second one, at
difficulty 0.4, submits its search to another process, and goes away because the first process
prints an answer that nobody has asked for. -/
def strayed : List Occurrence :=
  [.start (bareKings 1 10), .run 0] ++ opens 0 0 ++ plays 0 0 ++ prints 0 "bestmove a2a3\n" ++
    [.engine (.read 0), .run 0, .start (bareKings 2 5), .run 1] ++ opens 1 1 ++ plays 1 1 ++
    prints 0 "bestmove b2b3\n" ++ [.engine (.read 0), .run 1]

/-- A third request submits its search to the second process, which now prints both its answers. -/
def misled : List Occurrence :=
  strayed ++ [.start (bareKings 2 5), .run 2] ++ plays 2 1 ++
    prints 1 "bestmove c2c3\nbestmove d2d3\n" ++ [.engine (.read 1), .run 2]

set_option maxRecDepth 4000 in
/-- The first request has got the answer to its own search. -/
theorem answer_of_first_request :
    ((start .stock .stock .respond).after misled).service.result? 0 =
        some (.move (.ok ⟨⟨0, 1⟩, ⟨0, 2⟩, none⟩)) ∧
      Answered (start .stock .stock .respond) misled 0 ⟨⟨0, 1⟩, ⟨0, 2⟩, none⟩ :=
  ⟨rfl, answer_by_number rfl⟩

set_option maxRecDepth 4000 in
/-- The third request gets the answer to the search of the second one, although its process has
printed nothing before it was asked, and has answered its search too. -/
theorem answer_goes_astray :
    (∀ times ≤ misled.length,
      Disciplined (start .stock .stock .respond) 1 (misled.take times)) ∧
    goesWritten (start .stock .stock .respond) 1 strayed = 1 ∧
    goesWritten (start .stock .stock .respond) 1 misled = 2 ∧
    answersPrinted (start .stock .stock .respond) 1 misled =
      [.move ⟨⟨2, 1⟩, ⟨2, 2⟩, none⟩, .move ⟨⟨3, 1⟩, ⟨3, 2⟩, none⟩] ∧
    ((start .stock .stock .respond).after misled).service.result? 2 =
      some (.move (.ok ⟨⟨2, 1⟩, ⟨2, 2⟩, none⟩)) := by
  refine ⟨?_, ?_, ?_, ?_, rfl⟩ <;> decide +kernel

end Sparring.Uci
