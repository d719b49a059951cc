import Sparring.Proofs.Service.Undisturbed
import Sparring.Proofs.Uci.Hearing

/-!
# In whose hands the search is

The search that the slot is armed for goes from hand to hand. The task that has armed it submits
it: the search becomes the current one of a process, and the line that starts it is written. The
reader of that process takes it over when it hears an answer or finds the output over, and delivers
its completion, which empties the slot. If the line cannot be written, the task takes the search
back and disarms the slot.

`Clear` says of a process that it has no search in its hands but the armed one, and owes no answer
but the one to it; `Underway` says how far a submission has come. Together they are `Custody`, and a
step keeps that up (`Custody.step`) as long as the processes *behave*: none answers a search that it
has not been told to start, and the end of none races with a submission. Then no rule of the
handoff is ever broken (`custody_after`).
-/

namespace Sparring.Uci

/-! ## Searches that are not answered -/

/-- How many more searches were started than answered. -/
def owed (marks : List Mark) : Nat := marks.countP Mark.isGo - (answers (heard marks)).length

/-- Whether no more searches were answered than started. -/
def Asked (marks : List Mark) : Prop := (answers (heard marks)).length ≤ marks.countP Mark.isGo

theorem owed_append {xs ys : List Mark} (hgo : ys.countP Mark.isGo = 0)
    (hheard : answers (heard ys) = []) : owed (xs ++ ys) = owed xs := by
  simp [owed, heard_append, answers_append, hgo, hheard]

/-- An answer pays off a search. -/
theorem owed_answer {marks : List Mark} (o : Outcome) :
    owed (marks ++ [.heard (.bestMove o)]) = owed marks - 1 := by
  have hheard : answers (heard [.heard (.bestMove o)]) = [o] := rfl
  simp only [owed, heard_append, answers_append, hheard, List.countP_append, List.length_append]
  simp [Mark.isGo]
  omega

theorem owed_of_asked {marks : List Mark} {o : Outcome}
    (h : Asked (marks ++ [.heard (.bestMove o)])) : 0 < owed marks := by
  have hheard : answers (heard [.heard (.bestMove o)]) = [o] := rfl
  simp only [Asked, heard_append, answers_append, hheard, List.countP_append,
    List.length_append] at h
  simp [Mark.isGo] at h
  rw [owed]
  omega

theorem owed_wrote (marks : List Mark) (line : String) :
    owed (marks ++ [.wrote line]) ≤ owed marks + 1 := by
  have hheard : answers (heard [.wrote line]) = [] := rfl
  have hle := List.countP_le_length (p := Mark.isGo) (l := [.wrote line])
  simp only [owed, heard_append, answers_append, hheard, List.countP_append, List.length_append]
  simp only [List.length_cons, List.length_nil] at hle ⊢
  omega

namespace Instance

/-- Whether a process has a search in its hands: its reader will find it current, or has its
completion to deliver. -/
def Carries (i : Instance) (n : SearchId) : Prop :=
  (i.reader ≠ .ended ∧ i.current = some n) ∨ ∃ o, ⟨some n, o⟩ ∈ i.pending

/-- How a process stands to the slot. -/
structure Clear (armed : Option SearchId) (i : Instance) (log : List Mark) : Prop where
  /-- It has no search in its hands but the armed one. -/
  carried : ∀ n, i.Carries n → armed = some n
  /-- What the reader has to deliver is for a search, which is no longer current. -/
  named : ∀ c ∈ i.pending, c.search ≠ none ∧ i.current = none
  /-- It owes no answer but that to the current search. -/
  owed : i.Live → owed log ≤ i.current.toList.length

section Deeds

variable {armed : Option SearchId} {i : Instance} {log : List Mark} {n : SearchId}

theorem clear_new (armed : Option SearchId) (model : String) : (new model).Clear armed [] where
  carried n h := by
    rcases h with ⟨-, h⟩ | ⟨o, h⟩
    · cases h
    · cases h
  named c h := by cases h
  owed _ := Nat.zero_le _

theorem Clear.of_empty (h : i.Clear none log) (armed : Option SearchId) : i.Clear armed log :=
  ⟨fun n hn => absurd (h.carried n hn) (by simp), h.named, h.owed⟩

/-- A process that does not have the armed search has none. -/
theorem Clear.release (h : i.Clear armed log) (hn : ∀ n, armed = some n → ¬i.Carries n) :
    i.Clear none log :=
  ⟨fun n hc => absurd hc (hn n (h.carried n hc)), h.named, h.owed⟩

theorem Clear.of_same (h : i.Clear armed log) {j : Instance} (hcurrent : j.current = i.current)
    (hreader : j.reader = i.reader) {more : List Mark} (hgo : more.countP Mark.isGo = 0)
    (hheard : answers (heard more) = []) : j.Clear armed (log ++ more) := by
  have hpending : j.pending = i.pending := by
    unfold pending
    rw [hreader]
  refine ⟨fun n hn => h.carried n ?_, ?_, fun hl => ?_⟩
  · rwa [Carries, hcurrent, hreader, hpending] at hn
  · rw [hpending, hcurrent]
    exact h.named
  · rw [Live, hreader] at hl
    rw [owed_append hgo hheard, hcurrent]
    exact h.owed hl

/-- The reader takes up no search that the process did not have. -/
theorem Carries.of_read (h : i.read.1.Carries n) : i.Carries n := by
  have hread := reading_read i
  generalize i.read = out at hread h
  cases hread with
  | waits => exact h
  | ended => exact h
  | exhausted hr | bad hr | ack hr | other hr | delivers hr =>
    rcases h with ⟨hne, hc⟩ | ⟨o, ho⟩
    · exact Or.inl ⟨by rw [hr]; exact Reader.noConfusion, hc⟩
    · simp [pending, hr] at ho
  | @answer _ _ _ o hr =>
    rcases h with ⟨-, hc⟩ | ⟨o', ho⟩
    · cases hc
    · obtain ⟨hc, -⟩ := Completion.mk.inj (List.mem_singleton.1 ho)
      exact Or.inl ⟨by rw [hr]; exact Reader.noConfusion, hc.symm⟩
  | looksAt hr hc =>
    rcases h with ⟨-, hc'⟩ | ⟨o', ho⟩
    · cases hc'
    · obtain ⟨hn, -⟩ := Completion.mk.inj (List.mem_singleton.1 ho)
      exact Or.inl ⟨by rw [hr]; exact Reader.noConfusion, hc.trans hn.symm⟩
  | looks | reports =>
    rcases h with ⟨hne, -⟩ | ⟨o, ho⟩
    · exact absurd rfl hne
    · cases ho

/-- A process that owes nothing but the current search answers that one. -/
theorem Clear.answers (h : i.Clear armed log) (hr : i.reader = .reading) {o : Outcome}
    (hasked : Asked (log ++ [.heard (.bestMove o)])) : i.current ≠ none := by
  intro hnone
  have howed := h.owed (Or.inl hr)
  rw [hnone] at howed
  exact absurd (owed_of_asked hasked) (Nat.not_lt.2 howed)

/-- A step of its reader leaves a process clear that answers only what it is asked. -/
theorem Clear.read (h : i.Clear armed log) (hasked : Asked (log ++ i.marks .read)) :
    i.read.1.Clear armed (log ++ i.marks .read) := by
  refine ⟨fun n hn => h.carried n hn.of_read, ?_, ?_⟩
  -- Hearing an answer pays off the only search that is owed; nothing else that is heard counts.
  · have hread := reading_read i
    generalize i.read = out at hread
    intro c hc
    cases hread with
    | waits => exact h.named c hc
    | ended => exact h.named c hc
    | answer hr hf hd hanswer =>
      rw [marks_of_line hr hf hd, hanswer] at hasked
      obtain rfl := List.mem_singleton.1 hc
      exact ⟨h.answers hr hasked, rfl⟩
    | looksAt =>
      obtain rfl := List.mem_singleton.1 hc
      exact ⟨Option.some_ne_none _, rfl⟩
    | ack hr | other hr => simp [pending, hr] at hc
    | exhausted | bad | delivers | looks | reports => cases hc
  · have hread := reading_read i
    generalize i.read = out at hread
    intro hl
    cases hread with
    | waits hr hf =>
      have hmarks : i.marks .read = [] := by simp [marks, taken, hr, hf, replies]
      rw [hmarks, List.append_nil]
      exact h.owed hl
    | answer hr hf hd hanswer =>
      have howed := h.owed (Or.inl hr)
      have hlength : i.current.toList.length ≤ 1 := by cases i.current <;> simp
      rw [marks_of_line hr hf hd, hanswer, owed_answer]
      simp only [Option.toList_none, List.length_nil]
      omega
    | ack hr hf hd hack =>
      rw [marks_of_line hr hf hd, hack, owed_append rfl rfl]
      exact h.owed hl
    | other hr hf hd hother =>
      rw [marks_of_line hr hf hd, hother, owed_append rfl rfl]
      exact h.owed hl
    | delivers hr =>
      have hmarks : i.marks .read = [] := by simp [marks, taken, hr, replies]
      rw [hmarks, List.append_nil]
      exact h.owed (Or.inr ⟨_, hr⟩)
    | ended hr =>
      rcases hl with hl | ⟨c, hl⟩ <;> cases hr.symm.trans hl
    | exhausted | bad | looksAt | looks | reports => rcases hl with hl | ⟨c, hl⟩ <;> cases hl

theorem Clear.delivers (h : i.Clear armed log) {c : Completion} (hc : i.read.2 = some c) :
    (∃ n, c.search = some n ∧ i.Carries n) ∧ ∀ n, ¬i.read.1.Carries n := by
  have hmem : c ∈ i.pending := (pending_of_delivered (d := .read) (by simp [delivered, hc])).2.2
  obtain ⟨hsearch, hcurrent⟩ := h.named c hmem
  obtain ⟨n, hn⟩ := Option.ne_none_iff_exists'.1 hsearch
  refine ⟨⟨n, hn, Or.inr ⟨c.outcome, by rwa [← hn]⟩⟩, ?_⟩
  have hread := reading_read i
  generalize i.read = out at hread hc
  intro m hm
  cases hread with
  | delivers | reports =>
    rcases hm with ⟨-, hm⟩ | ⟨o, ho⟩
    · cases hcurrent.symm.trans hm
    · cases ho
  | waits | exhausted | bad | answer | ack | other | looksAt | looks | ended => cases hc

/-- Whether the reader of a process, if it goes on, finds a search current, and owes no answer. -/
def Poised (i : Instance) (log : List Mark) (n : SearchId) : Prop :=
  i.Live → i.reader = .reading ∧ i.current = some n ∧ Uci.owed log = 0

theorem Poised.of_same (h : i.Poised log n) {j : Instance} (hcurrent : j.current = i.current)
    (hreader : j.reader = i.reader) : j.Poised log n := by
  intro hl
  rw [Live, hreader] at hl
  rw [hreader, hcurrent]
  exact h hl

/-- A reader that answers only what it is asked does not answer a search that was not started. -/
theorem Poised.read (h : i.Poised log n) (hasked : Asked (log ++ i.marks .read)) :
    i.read.1.Poised (log ++ i.marks .read) n := by
  have hread := reading_read i
  generalize i.read = out at hread
  intro hl
  cases hread with
  | waits hr hf =>
    have hmarks : i.marks .read = [] := by simp [marks, taken, hr, hf, replies]
    rw [hmarks, List.append_nil]
    exact h hl
  | answer hr hf hd hanswer =>
    rw [marks_of_line hr hf hd, hanswer] at hasked
    have howed := owed_of_asked hasked
    rw [(h (Or.inl hr)).2.2] at howed
    cases howed
  | ack hr hf hd hack =>
    rw [marks_of_line hr hf hd, hack, owed_append rfl rfl]
    exact h hl
  | other hr hf hd hother =>
    rw [marks_of_line hr hf hd, hother, owed_append rfl rfl]
    exact h hl
  | delivers hr => cases hr.symm.trans (h (Or.inr ⟨_, hr⟩)).1
  | ended hr => rcases hl with hl | ⟨c, hl⟩ <;> cases hr.symm.trans hl
  | exhausted | bad | looksAt | looks | reports => rcases hl with hl | ⟨c, hl⟩ <;> cases hl

/-- A process that does not have the armed search has nothing in its hands. -/
theorem Clear.pending_eq_nil (h : i.Clear (some n) log) (hn : ¬i.Carries n) : i.pending = [] := by
  rw [List.eq_nil_iff_forall_not_mem]
  intro c hc
  obtain ⟨m, hm⟩ := Option.ne_none_iff_exists'.1 (h.named c hc).1
  have hcarries : i.Carries m := Or.inr ⟨c.outcome, by rwa [← hm]⟩
  cases h.carried m hcarries
  exact hn hcarries

/-- A process that does not have the armed search owes no answer. -/
theorem Clear.owed_eq_zero (h : i.Clear (some n) log) (hn : ¬i.Carries n) (hl : i.Live) :
    Uci.owed log = 0 := by
  have howed := h.owed hl
  cases hc : i.current with
  | none =>
    rw [hc] at howed
    exact Nat.le_zero.1 howed
  | some m =>
    have hne : i.reader ≠ .ended := by
      intro he
      rcases hl with hl | ⟨c, hl⟩ <;> cases he.symm.trans hl
    have hcarries : i.Carries m := Or.inl ⟨hne, hc⟩
    cases h.carried m hcarries
    exact absurd hcarries hn

theorem Clear.record (h : i.Clear (some n) log) (hn : ¬i.Carries n) :
    (i.perform (.record n)).Clear (some n) (log ++ [.recorded n]) ∧
      (i.perform (.record n)).Poised (log ++ [.recorded n]) n := by
  have hpending := h.pending_eq_nil hn
  have howed : i.Live → Uci.owed log = 0 := h.owed_eq_zero hn
  refine ⟨⟨?_, ?_, fun hl => ?_⟩, fun hl => ⟨?_, rfl, ?_⟩⟩
  · rintro m (⟨-, hm⟩ | ⟨o, ho⟩)
    · exact hm
    · rw [show (i.perform (.record n)).pending = i.pending from rfl, hpending] at ho
      cases ho
  · intro c hc
    rw [show (i.perform (.record n)).pending = i.pending from rfl, hpending] at hc
    cases hc
  · rw [owed_append rfl rfl, howed hl]
    exact Nat.zero_le _
  · rcases hl with hl | ⟨c, hl⟩
    · exact hl
    · have hl' : i.reader = .delivering c := hl
      rw [pending, hl'] at hpending
      cases hpending
  · rw [owed_append rfl rfl, howed hl]

theorem Clear.withdraw (h : i.Clear armed log) (hn : i.Poised log n) :
    (i.perform .withdraw).Clear armed (log ++ [.withdrawn]) := by
  refine ⟨?_, fun c hc => ⟨(h.named c hc).1, rfl⟩, fun hl => ?_⟩
  · rintro m (⟨-, hm⟩ | ho)
    · cases hm
    · exact h.carried m (Or.inr ho)
  · rw [owed_append rfl rfl, (hn hl).2.2]
    exact Nat.zero_le _

/-- A line is written. If it starts a search, that one has been recorded. -/
theorem Clear.write (h : i.Clear armed log) {line : String}
    (hgo : (Mark.wrote line).isGo = true → ∃ n, i.Poised log n) :
    (i.perform (.write line)).Clear armed (log ++ i.marks (.write line)) := by
  simp only [perform, marks]
  split
  · cases hline : (Mark.wrote line).isGo with
    | false =>
      have hzero : [Mark.wrote line].countP Mark.isGo = 0 := by simp [hline]
      exact h.of_same (j := { i with written := i.written ++ [line ++ "\n"] }) rfl rfl hzero rfl
    | true =>
      obtain ⟨n, hn⟩ := hgo hline
      refine ⟨h.carried, h.named, fun hl => ?_⟩
      obtain ⟨-, hcurrent, hzero⟩ := hn hl
      have howed := owed_wrote log line
      rw [hcurrent]
      simp only [Option.toList_some, List.length_cons, List.length_nil]
      omega
  · exact h.of_same rfl rfl rfl rfl

end Deeds

end Instance

/-! ## What a step does to a process -/

/-- Whether a deed is done by the process itself or by its end, and not by a call or the reader. -/
def Deed.Outside : Deed → Prop
  | .print _ | .closeOutput | .closeInput => True
  | _ => False

theorem Instance.same_of_outside {d : Deed} (h : d.Outside) (i : Instance) :
    (i.perform d).current = i.current ∧ (i.perform d).reader = i.reader ∧ i.marks d = [] := by
  cases d with
  | print bytes =>
    simp only [perform]
    split <;> exact ⟨rfl, rfl, rfl⟩
  | closeOutput | closeInput => exact ⟨rfl, rfl, rfl⟩
  | read | write | record | withdraw | takeAck => cases h

theorem Instance.same_of_all_outside {deeds : List Deed} (h : ∀ d ∈ deeds, d.Outside)
    (i : Instance) :
    (i.performs deeds).current = i.current ∧ (i.performs deeds).reader = i.reader ∧
      observe perform marks i deeds = [] := by
  induction deeds generalizing i with
  | nil => exact ⟨rfl, rfl, rfl⟩
  | cons d deeds ih =>
    obtain ⟨hcurrent, hreader, hmarks⟩ := same_of_outside (h d List.mem_cons_self) i
    obtain ⟨hcurrent', hreader', hmarks'⟩ :=
      ih (fun d' hd => h d' (List.mem_cons_of_mem d hd)) (i.perform d)
    refine ⟨hcurrent'.trans hcurrent, hreader'.trans hreader, ?_⟩
    rw [observe, hmarks, hmarks']
    rfl

section Step

variable {s : System Fleet} {J : Journals} {e : Occurrence} {k : Nat} {i : Instance}

/-- How a process and its journal change in a step: not at all, as far as searches go, or by a step
of the reader, or by an action of a call. -/
inductive Alters (s : System Fleet) (J : Journals) (e : Occurrence) (k : Nat) (i : Instance) :
    Instance → Prop
  | outside {j : Instance} : j.current = i.current → j.reader = i.reader →
      enter J s e k = J k → Alters s J e k i j
  | reads : e = .engine (.read k) → enter J s e k = J k ++ i.marks .read → Alters s J e k i i.read.1
  | acts {c : OpenCall} {a : Action} {rest : List Action} {failure : Option Causes} :
      c ∈ s.engines.calls → e = .engine (.proceed c.task) →
      c.progress = .acting k (a :: rest) failure → enter J s e k = J k ++ i.marks a.deed →
      Alters s J e k i (i.perform a.deed)

theorem alters_step (J : Journals) (hi : s.engines.instances[k]? = some i) (e : Occurrence) :
    ∃ j, (s.step e).engines.instances[k]? = some j ∧ Alters s J e k i j := by
  refine ⟨_, instance_step hi e, ?_⟩
  have henter : enter J s e k =
      J k ++ observe Instance.perform Instance.marks i (deedsOf s k e) := by
    simp only [enter, showing, hi]
  by_cases hcall : ∃ d ∈ deedsOf s k e, d.OfCall
  · obtain ⟨d, hd, hof⟩ := hcall
    obtain ⟨hone, -, c, hc, he, a, rest, failure, hp, rfl⟩ := calling_of_mem hd hof
    rw [hone, observe, observe_nil, List.append_nil] at henter
    rw [hone]
    exact .acts hc he hp henter
  by_cases hread : .read ∈ deedsOf s k e
  · obtain ⟨-, he, hone⟩ := read_of_mem hread
    rw [hone, observe, observe_nil, List.append_nil] at henter
    rw [hone]
    exact .reads he henter
  have houtside : ∀ d ∈ deedsOf s k e, d.Outside := by
    intro d hd
    cases d with
    | print | closeOutput | closeInput => trivial
    | read => exact absurd hd hread
    | write | record | withdraw | takeAck => exact absurd ⟨_, hd, trivial⟩ hcall
  obtain ⟨hcurrent, hreader, hmarks⟩ := Instance.same_of_all_outside houtside i
  rw [hmarks, List.append_nil] at henter
  exact .outside hcurrent hreader henter

theorem before_step (J : Journals) {j : Instance}
    (hj : (s.step e).engines.instances[k]? = some j) :
    (∃ i, s.engines.instances[k]? = some i ∧ Alters s J e k i j) ∨
      s.engines.instances[k]? = none ∧ (∃ model, j = Instance.new model) ∧ enter J s e k = J k := by
  cases hi : s.engines.instances[k]? with
  | some i =>
    obtain ⟨j', hj', halters⟩ := alters_step J hi e
    cases hj.symm.trans hj'
    exact Or.inl ⟨i, rfl, halters⟩
  | none =>
    obtain ⟨-, hnone | ⟨model, hnew⟩⟩ := absent_step hi e
    · cases hj.symm.trans hnone
    · cases hj.symm.trans hnew
      refine Or.inr ⟨rfl, ⟨model, rfl⟩, ?_⟩
      simp only [enter, showing, hi, List.append_nil]

end Step

/-! ## How far a submission has come -/

/-- Whether a failed submission is about to take back its search on a process. -/
def Progress.withdraws (k : Nat) : Progress → Bool
  | .acting process [.withdraw] (some _) => process = k
  | _ => false

/-- Whether the end of a process races with the submission of a search: its line could not be
written, and before the search is taken back the reader has the exit to report. -/
def Fleet.races (f : Fleet) (k : Nat) : Bool :=
  f.calls.any (·.progress.withdraws k) &&
    (f.instances[k]?).any fun i =>
      match i.reader with
      | .reporting _ => true
      | _ => false

/-- Whether a process has been given a search: it stands in the journal, and the reader finds it
current and owes no answer. -/
structure Given (f : Fleet) (J : Journals) (n : SearchId) (k : Nat) : Prop where
  recorded : .recorded n ∈ J k
  poised : ∀ i, f.instances[k]? = some i → i.Poised (J k) n

/-- How far the submission of a search has come, and in whose hands the search is. -/
inductive Underway (f : Fleet) (armed : Option SearchId) (J : Journals) (n : SearchId) :
    Progress → Prop
  | opening {k : Nat} {line : String} :
      armed = some n → Underway f armed J n (.acting k [.record n, .write line] none)
  | recorded {k : Nat} {line : String} :
      Given f J n k → Underway f armed J n (.acting k [.write line] none)
  | written {k : Nat} : Underway f armed J n (.acting k [] none)
  | broken {k : Nat} {causes : Causes} :
      Given f J n k → Underway f armed J n (.acting k [.withdraw] (some causes))
  /-- Nobody has the search any more. -/
  | withdrawn {k : Nat} {causes : Causes} :
      (∀ (j : Nat) (i : Instance), f.instances[j]? = some i → ¬i.Carries n) →
      Underway f armed J n (.acting k [] (some causes))

/-- What holds of the journals in every run that goes on. -/
structure Backed (s : System Fleet) (J : Journals) : Prop where
  kept : Kept s J
  served : Served s
  /-- Whatever a process has in its hands was recorded there. -/
  carried : ∀ (k : Nat) (i : Instance) (n : SearchId), s.engines.instances[k]? = some i →
    i.Carries n → .recorded n ∈ J k
  /-- A process that is not there has an empty journal. -/
  absent : ∀ k, s.engines.instances[k]? = none → J k = []

/-- How the slot stands to the processes and to the submission under way. -/
structure Custody (s : System Fleet) (armed : Option SearchId) (J : Journals) : Prop where
  clear : ∀ (k : Nat) (i : Instance), s.engines.instances[k]? = some i → i.Clear armed (J k)
  underway : ∀ c ∈ s.engines.calls, ∀ model n limits, c.call = .go model n limits →
    Underway s.engines armed J n c.progress

section Step

variable {s : System Fleet} {armed : Option SearchId} {J : Journals} {e : Occurrence}

theorem Backed.unique (hb : Backed s J) {n : SearchId} {j k : Nat} (hj : .recorded n ∈ J j)
    (hk : .recorded n ∈ J k) : j = k := by
  obtain ⟨before, later, honce⟩ := hb.kept.once k n hk
  by_contra hne
  exact honce.elsewhere j hne hj

theorem Backed.only (hb : Backed s J) {c : OpenCall} (hc : c ∈ s.engines.calls) :
    s.engines.calls = [c] ∧ OnCourse c.call c.progress ∧
      ∃ stage, s.service.stage? c.task = some stage ∧ stage.call? = some c.call := by
  cases hb.served with
  | idle hnone _ =>
    rw [hnone] at hc
    cases hc
  | busy hone hid hcall ho =>
    rw [hone] at hc
    cases List.mem_singleton.1 hc
    exact ⟨hone, ho, _, hid, hcall⟩

/-- A search that is still to be recorded stands nowhere. -/
theorem Backed.fresh (hb : Backed s J) {c : OpenCall} (hc : c ∈ s.engines.calls) {model : String}
    {n : SearchId} {limits : SearchLimits} (hgo : c.call = .go model n limits) {k : Nat}
    {rest : List Action} (hp : c.progress = .acting k (.record n :: rest) none) (j : Nat) :
    .recorded n ∉ J j := by
  have hsub := hb.kept.submitting c hc model n limits hgo
  rw [hp] at hsub
  cases hsub with
  | opening hfresh => exact hfresh j
  | failing hf => cases hf

theorem isGo_append {start : String} (h : 3 ≤ start.toList.length) (rest : String) :
    (Mark.wrote (start ++ rest)).isGo = (Mark.wrote start).isGo := by
  rw [Mark.isGo, String.toList_append, List.take_append_of_le_length h]
  rfl

theorem isGo_positionCommand (fen : String) : (Mark.wrote (positionCommand fen)).isGo = false :=
  isGo_append (by decide) fen

theorem isGo_optionCommand (name value : String) :
    (Mark.wrote (optionCommand name value)).isGo = false := by
  have hassoc : ∀ a b c d : String, a ++ b ++ c ++ d = a ++ (b ++ (c ++ d)) := fun a b c d => by
    rw [String.append_assoc, String.append_assoc]
  exact (congrArg (fun line => (Mark.wrote line).isGo) (hassoc ..)).trans
    (isGo_append (by decide) _)

theorem go_of_isGo {call : EngineCall} {as : List Action} {line : String}
    (h : Fleet.actions call = .ok as) (hline : .write line ∈ as)
    (hgo : (Mark.wrote line).isGo = true) : ∃ model n limits, call = .go model n limits := by
  cases call with
  | go model n limits => exact ⟨model, n, limits, rfl⟩
  | create model =>
    cases h
    simp only [List.mem_cons, Action.write.injEq, List.not_mem_nil, or_false] at hline
    rcases hline with rfl | hline
    · cases hgo
    · cases hline
  | newGame model =>
    cases h
    simp only [List.mem_cons, Action.write.injEq, List.not_mem_nil, or_false] at hline
    rcases hline with rfl | rfl | hline
    · cases hgo
    · cases hgo
    · cases hline
  | setOption model name value =>
    cases h
    simp only [List.mem_cons, Action.write.injEq, List.not_mem_nil, or_false] at hline
    cases (isGo_optionCommand name value).symm.trans (hline ▸ hgo)
  | setPosition model fen =>
    simp only [Fleet.actions] at h
    split at h
    · cases h
    · cases h
      simp only [List.mem_cons, Action.write.injEq, List.not_mem_nil, or_false] at hline
      cases (isGo_positionCommand fen).symm.trans (hline ▸ hgo)

/-- A search is recorded when it is armed, and by a process that does not have it yet. -/
theorem Custody.recording (h : Custody s armed J) (hb : Backed s J) {k : Nat} {i : Instance}
    (hi : s.engines.instances[k]? = some i) {c : OpenCall} (hc : c ∈ s.engines.calls)
    {n : SearchId} {rest : List Action} {failure : Option Causes}
    (hp : c.progress = .acting k (.record n :: rest) failure) :
    i.Clear (some n) (J k) ∧ armed = some n ∧ ¬i.Carries n := by
  obtain ⟨-, ho, -⟩ := hb.only hc
  rw [hp] at ho
  obtain ⟨rfl, model, limits, hgo⟩ := ho.go_of_record
  have hunder := h.underway c hc model n limits hgo
  have hfresh := hb.fresh hc hgo hp k
  rw [hp] at hunder
  cases hunder with
  | opening harmed =>
    exact ⟨harmed ▸ h.clear k i hi, harmed, fun hn => hfresh (hb.carried k i n hi hn)⟩

theorem Custody.acts (h : Custody s armed J) (hb : Backed s J) {k : Nat} {i : Instance}
    (hi : s.engines.instances[k]? = some i) {c : OpenCall} (hc : c ∈ s.engines.calls) {a : Action}
    {rest : List Action} {failure : Option Causes}
    (hp : c.progress = .acting k (a :: rest) failure) :
    (i.perform a.deed).Clear armed (J k ++ i.marks a.deed) := by
  have hclear := h.clear k i hi
  obtain ⟨-, ho, -⟩ := hb.only hc
  rw [hp] at ho
  -- A line may start a search: then the search is in good hands already.
  cases a with
  | write line =>
    refine hclear.write fun hline => ?_
    have hcall : ∃ model n limits, c.call = .go model n limits := by
      rcases ho.of_acting with ⟨-, done, hactions⟩ | ⟨-, hrest⟩
      · exact go_of_isGo hactions (by simp) hline
      · cases hcall : c.call <;> rw [hcall] at hrest <;> cases hrest
    obtain ⟨model, n, limits, hgo⟩ := hcall
    have hunder := h.underway c hc model n limits hgo
    rw [hp] at hunder
    cases hunder with
    | recorded hgiven => exact ⟨n, hgiven.poised i hi⟩
  | record n =>
    obtain ⟨hclear, harmed, hno⟩ := h.recording hb hi hc hp
    rw [harmed]
    exact (hclear.record hno).1
  | withdraw =>
    obtain ⟨-, -, model, n, limits, hgo⟩ := ho.failing_of_withdraw
    have hunder := h.underway c hc model n limits hgo
    rw [hp] at hunder
    cases hunder with
    | broken hgiven => exact hclear.withdraw (hgiven.poised i hi)
  | await b =>
    have hmarks : (i.marks .takeAck).countP Mark.isGo = 0 ∧
        answers (heard (i.marks .takeAck)) = [] := by
      cases hacks : i.acks <;> simp [Instance.marks, hacks, Mark.isGo, heard, Mark.reply?, answers]
    exact hclear.of_same (j := i.perform .takeAck) rfl rfl hmarks.1 hmarks.2

/-- A step leaves every process clear, as long as the slot stays as it is. -/
theorem Custody.clear_step (h : Custody s armed J) (hb : Backed s J)
    (hasked : ∀ k, Asked (enter J s e k)) {k : Nat} {j : Instance}
    (hj : (s.step e).engines.instances[k]? = some j) : j.Clear armed (enter J s e k) := by
  rcases before_step J hj with ⟨i, hi, halters⟩ | ⟨hnone, ⟨model, rfl⟩, henter⟩
  · have hclear := h.clear k i hi
    have hkasked := hasked k
    cases halters with
    | outside hcurrent hreader henter =>
      rw [henter, ← List.append_nil (J k)]
      exact hclear.of_same hcurrent hreader rfl rfl
    | reads _ henter =>
      rw [henter] at hkasked ⊢
      exact hclear.read hkasked
    | acts hc _ hp henter =>
      rw [henter]
      exact h.acts hb hi hc hp
  · rw [henter, hb.absent k hnone]
    exact Instance.clear_new armed model

/-- A process keeps the search that it has been given, if no call goes on. -/
theorem Given.keep {n : SearchId} {k : Nat} (h : Given s.engines J n k) (hb : Backed s J)
    (hasked : ∀ k, Asked (enter J s e k))
    (hquiet : ∀ c ∈ s.engines.calls, e ≠ .engine (.proceed c.task)) :
    Given (s.step e).engines (enter J s e) n k := by
  refine ⟨List.mem_append_left _ h.recorded, fun j hj => ?_⟩
  rcases before_step J hj with ⟨i, hi, halters⟩ | ⟨hnone, -, -⟩
  · have hpoised := h.poised i hi
    have hkasked := hasked k
    cases halters with
    | outside hcurrent hreader henter =>
      rw [henter]
      exact hpoised.of_same hcurrent hreader
    | reads _ henter =>
      rw [henter] at hkasked ⊢
      exact hpoised.read hkasked
    | acts hc he => exact absurd he (hquiet _ hc)
  · have hrecorded := h.recorded
    rw [hb.absent k hnone] at hrecorded
    cases hrecorded

/-- A process takes up no search unless a call acts on it. -/
theorem not_carries_step {n : SearchId} {k : Nat}
    (h : ∀ i : Instance, s.engines.instances[k]? = some i → ¬i.Carries n)
    (hquiet : ∀ c ∈ s.engines.calls, e = .engine (.proceed c.task) → ∀ a rest failure,
      c.progress = .acting k (a :: rest) failure → s.engines.instances[k]? = none) {j : Instance}
    (hj : (s.step e).engines.instances[k]? = some j) : ¬j.Carries n := by
  rcases before_step (fun _ => []) hj with ⟨i, hi, halters⟩ | ⟨-, ⟨model, rfl⟩, -⟩
  · have hno := h i hi
    cases halters with
    | outside hcurrent hreader =>
      rwa [Instance.Carries, hcurrent, hreader, Instance.pending, hreader]
    | reads => exact fun hn => hno hn.of_read
    | acts hc he hp =>
      rw [hquiet _ hc he _ _ _ hp] at hi
      cases hi
  · exact fun hn => by cases ((Instance.clear_new none model).carried n hn)

theorem Underway.keep {n : SearchId} {progress : Progress}
    (h : Underway s.engines armed J n progress) (hb : Backed s J)
    (hasked : ∀ k, Asked (enter J s e k))
    (hquiet : ∀ c ∈ s.engines.calls, e ≠ .engine (.proceed c.task)) :
    Underway (s.step e).engines armed (enter J s e) n progress := by
  cases h with
  | opening harmed => exact .opening harmed
  | recorded hgiven => exact .recorded (hgiven.keep hb hasked hquiet)
  | written => exact .written
  | broken hgiven => exact .broken (hgiven.keep hb hasked hquiet)
  | withdrawn hno =>
    exact .withdrawn fun k j => not_carries_step (hno k) fun c hc he => absurd he (hquiet c hc)

theorem Fleet.calls_proceed_of_spent {f : Fleet} {c : OpenCall} (hone : f.calls = [c]) {k : Nat}
    {failure : Option Causes} (hp : c.progress = .acting k [] failure) :
    (f.proceed c).1.calls = [] := by
  simp only [proceed, hp]
  refine (returns_finish hone k failure ?_).1
  rintro rfl hf
  rw [hp] at hf
  cases hf

/-- A call that is still under way after an action has found its process there. -/
theorem proceed_acts (J : Journals) (ha : s.service.aborted = false) {c c' : OpenCall}
    (hone : s.engines.calls = [c]) {k : Nat} {a : Action} {rest : List Action}
    {failure : Option Causes} (hp : c.progress = .acting k (a :: rest) failure)
    (hc' : c' ∈ (s.engines.proceed c).1.calls) :
    ∃ i, s.engines.instances[k]? = some i ∧
      c' ∈ (s.engines.act c k i a rest failure).calls ∧
      (s.step (.engine (.proceed c.task))).engines.instances[k]? = some (i.perform a.deed) ∧
      enter J s (.engine (.proceed c.task)) k = J k ++ i.marks a.deed := by
  cases hi : s.engines.instances[k]? with
  | none =>
    rw [Fleet.calls_proceed_of_absent hone hp hi] at hc'
    cases hc'
  | some i =>
    have hdeeds : deedsOf s k (.engine (.proceed c.task)) = [a.deed] := by
      simp [deedsOf, ha, hi, Fleet.deeds, Fleet.call?_of_calls hone, OpenCall.deeds, hp]
    refine ⟨i, rfl, ?_, ?_, ?_⟩
    · simpa only [Fleet.proceed, hp, hi] using hc'
    · rw [instance_step hi, hdeeds]
      rfl
    · rw [(enter_of_acting ha hone hp hi).1, Instance.marks_deed]

theorem Given.of_instance {f : Fleet} {n : SearchId} {k : Nat} {i : Instance}
    (hi : f.instances[k]? = some i) (hrecorded : .recorded n ∈ J k) (h : i.Poised (J k) n) :
    Given f J n k := by
  refine ⟨hrecorded, fun j hj => ?_⟩
  cases hi.symm.trans hj
  exact h

/-- A search that is taken back is in no hands, unless the reader has the exit to report. -/
theorem Instance.Poised.not_carries_withdraw {i : Instance} {log : List Mark} {n : SearchId}
    (h : i.Poised log n) (hno : ∀ c, i.reader ≠ .reporting c) :
    ¬(i.perform .withdraw).Carries n := by
  rintro (⟨-, hn⟩ | ⟨o, ho⟩)
  · cases hn
  · have hpending : ⟨some n, o⟩ ∈ i.pending := ho
    cases hr : i.reader with
    | reading | closing | ended => simp [Instance.pending, hr] at hpending
    | delivering c => cases hr.symm.trans (h (Or.inr ⟨c, hr⟩)).1
    | reporting c => exact hno c hr

/-- When a failed submission takes its search back, it is in nobody's hands any more. -/
theorem Given.not_carries_step {n : SearchId} {k : Nat} (h : Given s.engines J n k)
    (hb : Backed s J) (hraces : s.engines.races k = false) {c : OpenCall}
    (hone : s.engines.calls = [c]) {causes : Causes}
    (hp : c.progress = .acting k [.withdraw] (some causes)) {i : Instance}
    (hi : s.engines.instances[k]? = some i)
    (hi' : (s.step e).engines.instances[k]? = some (i.perform .withdraw)) {j : Nat} {i' : Instance}
    (hj : (s.step e).engines.instances[j]? = some i') : ¬i'.Carries n := by
  by_cases hjk : j = k
  · subst hjk
    cases hi'.symm.trans hj
    refine (h.poised i hi).not_carries_withdraw fun c' hr => ?_
    simp [Fleet.races, hone, hp, Progress.withdraws, hi, hr] at hraces
  · refine Uci.not_carries_step (fun i hi hn => ?_) (fun d hd _ a rest failure hacting => ?_) hj
    · exact hjk (hb.unique (hb.carried j i n hi hn) h.recorded)
    · rw [hone] at hd
      cases List.mem_singleton.1 hd
      rw [hp] at hacting
      exact absurd (Progress.acting.inj hacting).1.symm hjk

theorem Custody.proceed (h : Custody s armed J) (hb : Backed s J) (ha : s.service.aborted = false)
    (hraces : ∀ k, s.engines.races k = false) {c : OpenCall} (hc : c ∈ s.engines.calls)
    {model : String} {n : SearchId} {limits : SearchLimits} (hgo : c.call = .go model n limits)
    {c' : OpenCall} (hc' : c' ∈ (s.engines.proceed c).1.calls) :
    Underway (s.step (.engine (.proceed c.task))).engines armed
      (enter J s (.engine (.proceed c.task))) n c'.progress := by
  have hunder := h.underway c hc model n limits hgo
  obtain ⟨hone, -, -⟩ := hb.only hc
  rcases hp : c.progress with _ | ⟨k, rest, failure⟩ <;> rw [hp] at hunder
  · cases hunder
  -- Along the course of a submission: record, write, and take back if the write has failed.
  cases hunder with
  | opening harmed =>
    obtain ⟨i, hi, hact, hi', henter⟩ := proceed_acts J ha hone hp hc'
    rw [(Fleet.calls_act hone k i _).1] at hact
    obtain rfl := List.mem_singleton.1 hact
    obtain ⟨hclear, -, hno⟩ := h.recording hb hi hc hp
    refine .recorded (.of_instance hi' ?_ ?_) <;> rw [henter]
    · exact List.mem_append_right _ (List.mem_singleton_self _)
    · exact (hclear.record hno).2
  | @recorded _ line hgiven =>
    obtain ⟨i, hi, hact, hi', henter⟩ := proceed_acts J ha hone hp hc'
    rw [(Fleet.calls_act hone k i _).2] at hact
    obtain rfl := List.mem_singleton.1 hact
    cases hopen : i.inputOpen with
    | true => exact .written
    | false =>
      have hsame : i.perform (.write line) = i := by simp [Instance.perform, hopen]
      have hmarks : i.marks (.write line) = [] := by simp [Instance.marks, hopen]
      rw [Action.deed, hmarks, List.append_nil] at henter
      rw [Action.deed, hsame] at hi'
      simp only [hgo, Fleet.afterFailure]
      refine .broken (.of_instance hi' ?_ ?_) <;> rw [henter]
      · exact hgiven.recorded
      · exact hgiven.poised i hi
  | @broken _ causes hgiven =>
    obtain ⟨i, hi, hact, hi', -⟩ := proceed_acts J ha hone hp hc'
    have hcalls : (s.engines.act c k i .withdraw [] (some causes)).calls =
        [{ c with progress := .acting k [] (some causes) }] := by
      simp [Fleet.act, Fleet.advance, Fleet.modify, hone]
    rw [hcalls] at hact
    obtain rfl := List.mem_singleton.1 hact
    exact .withdrawn fun j i' hj => hgiven.not_carries_step hb (hraces k) hone hp hi hi' hj
  | written | withdrawn =>
    rw [Fleet.calls_proceed_of_spent hone hp] at hc'
    cases hc'

/-- Every submission under way after a step of the processes was under way before it. -/
theorem Custody.underway_engines (h : Custody s armed J) (hb : Backed s J)
    (ha : s.service.aborted = false) (hasked : ∀ k, Asked (enter J s e k))
    (hraces : ∀ k, s.engines.races k = false) {c' : OpenCall}
    (hc' : c' ∈ (s.engineStep e).1.calls) {model : String} {n : SearchId} {limits : SearchLimits}
    (hgo : c'.call = .go model n limits) :
    Underway (s.step e).engines armed (enter J s e) n c'.progress := by
  cases e with
  | start | run | hangUp =>
    exact (h.underway c' hc' model n limits hgo).keep hb hasked
      fun _ _ he => (by cases he)
  | engine e =>
    rw [engineStep_of_going ha] at hc'
    cases hcalls : s.engines.calls with
    | nil =>
      rw [(Fleet.step_none hcalls e).2] at hc'
      cases hc'
    | cons c cs =>
      have hc : c ∈ s.engines.calls := by simp [hcalls]
      obtain ⟨hone, ho, -⟩ := hb.only hc
      rw [Fleet.call_of_step hone ho hc'] at hgo
      have hunder := h.underway c hc model n limits hgo
      -- The only call under way has its turn, or it stays as it is.
      by_cases he : e = .proceed c.task
      · subst he
        simp only [Fleet.step, Fleet.call?_of_calls hone] at hc'
        exact h.proceed hb ha hraces hc hgo hc'
      · have hlaunched : c.progress ≠ .launching := by
          intro hl
          rw [hl] at hunder
          cases hunder
        rw [Fleet.calls_step_of_ne hone hlaunched he] at hc'
        cases List.mem_singleton.1 hc'
        refine hunder.keep hb hasked fun d hd hd' => ?_
        rw [hone] at hd
        cases List.mem_singleton.1 hd
        exact he (System.Event.engine.inj hd')

end Step

/-! ## A step of the system -/

section Step

variable {s : System Fleet} {armed armed' : Option SearchId} {J : Journals} {e : Occurrence}

theorem Custody.taken (h : Custody s armed J) {c : Completion}
    (hr : s.relay e = some (.completed c)) :
    ∃ k i n, s.engines.instances[k]? = some i ∧ e = .engine (.read k) ∧ i.read.2 = some c ∧
      (s.step e).engines.instances[k]? = some i.read.1 ∧ i.Carries n ∧ c.search = some n ∧
      armed = some n := by
  obtain ⟨k, i, hi, hdeeds, hdelivered⟩ := relay_completed hr
  have hread : .read ∈ deedsOf s k e := by
    rw [hdeeds]
    exact List.mem_singleton_self _
  obtain ⟨-, he, -⟩ := read_of_mem hread
  have hout : i.read.2 = some c := by
    have hmem : c ∈ i.read.2.toList := by
      rw [show i.read.2.toList = [c] from hdelivered]
      exact List.mem_singleton_self c
    exact Option.mem_toList.1 hmem
  obtain ⟨⟨n, hn, hcarries⟩, -⟩ := (h.clear k i hi).delivers hout
  refine ⟨k, i, n, hi, he, hout, ?_, hcarries, hn, (h.clear k i hi).carried n hcarries⟩
  rw [instance_step hi, hdeeds]
  rfl

/-- Only a submission that has still to record its search minds the slot. -/
theorem Underway.rearm {f : Fleet} {n : SearchId} {progress : Progress}
    (h : Underway f armed J n progress)
    (hopening : armed = some n → (∃ k rest, progress = .acting k (.record n :: rest) none) →
      armed' = some n) : Underway f armed' J n progress := by
  cases h with
  | opening harmed => exact .opening (hopening harmed ⟨_, _, rfl⟩)
  | recorded hgiven => exact .recorded hgiven
  | written => exact .written
  | broken hgiven => exact .broken hgiven
  | withdrawn hno => exact .withdrawn hno

theorem Fleet.calls_read (f : Fleet) (k : Nat) : (f.step (.read k)).1.calls = f.calls := by
  simp only [step]
  split <;> rfl

/-- A completion is taken: the slot is empty, and nobody has the search in its hands. -/
theorem Custody.emptied (h : Custody s armed J) (hb : Backed s J) (ha : s.service.aborted = false)
    (hasked : ∀ k, Asked (enter J s e k)) (hraces : ∀ k, s.engines.races k = false)
    {c : Completion} (hr : s.relay e = some (.completed c))
    (hold : ∀ c ∈ (s.step e).engines.calls, ∀ model n limits, c.call = .go model n limits →
      c ∈ (s.engineStep e).1.calls) : Custody (s.step e) none (enter J s e) := by
  obtain ⟨k, i, n, hi, he, hout, hi', hcarries, -, harmed⟩ := h.taken hr
  have hrecorded := hb.carried k i n hi hcarries
  refine ⟨fun j i' hj => ?_, fun c' hc' model m limits hgo => ?_⟩
  · refine (h.clear_step hb hasked hj).release fun m hm => ?_
    cases harmed.symm.trans hm
    by_cases hjk : j = k
    · subst hjk
      cases hj.symm.trans hi'
      exact ((h.clear j i hi).delivers hout).2 n
    · refine not_carries_step (fun i' hi' hn => ?_) (fun d _ hd => ?_) hj
      · exact hjk (hb.unique (hb.carried j i' n hi' hn) hrecorded)
      · cases he.symm.trans hd
  · have hc := hold c' hc' model m limits hgo
    refine (h.underway_engines hb ha hasked hraces hc hgo).rearm fun hm hopening => ?_
    obtain ⟨k', rest, hp⟩ := hopening
    cases harmed.symm.trans hm
    subst he
    rw [engineStep_of_going ha, Fleet.calls_read] at hc
    exact absurd hrecorded (hb.fresh hc hgo hp k)

theorem returned_of_relay {id : TaskId} {r : CallResult}
    (hr : s.relay e = some (.returned id r)) :
    ∃ ev, e = .engine ev ∧ (s.engines.step ev).2 = some (.returned id r) := by
  cases e with
  | start | run | hangUp => cases hr
  | engine ev =>
    obtain ⟨seen, hev, hseen⟩ := Option.map_eq_some_iff.1 hr
    cases ha : s.service.aborted with
    | true =>
      rw [engineStep_of_aborted ha] at hev
      cases hev
    | false =>
      rw [engineStep_of_going ha] at hev
      cases seen with
      | deliver => cases hseen
      | returned =>
        cases hseen
        exact ⟨ev, rfl, hev⟩

theorem uncrashed_of_relay {id : TaskId} {message : String} :
    s.relay e ≠ some (.returned id (.crashed message)) := by
  intro hr
  obtain ⟨ev, -, hev⟩ := returned_of_relay hr
  obtain ⟨c, -, hreturning⟩ := Fleet.returning_of_step hev
  generalize c.progress = progress at hreturning
  cases hreturning

theorem uncrashed_relayed (s : System Fleet) (es : List Occurrence) (id : TaskId)
    (message : String) : .returned id (.crashed message) ∉ s.relayed es := by
  intro hmem
  obtain ⟨before, e, later, -, he⟩ := mem_observe.1 hmem
  exact uncrashed_of_relay (Option.mem_toList.1 he)

theorem calls_of_returned (hs : Served s) (ha : s.service.aborted = false) {id : TaskId}
    {r : CallResult} (hr : s.relay e = some (.returned id r)) :
    (s.engineStep e).1.calls = [] := by
  obtain ⟨ev, rfl, hev⟩ := returned_of_relay hr
  rw [engineStep_of_going ha]
  exact (hs.returned hev).1

/-- When a submission has failed, nobody has its search in its hands. -/
theorem Custody.not_carries_of_failed (h : Custody s armed J) (hb : Backed s J) {id : TaskId}
    {p : Profile} {n : SearchId} {causes : Causes}
    (hid : s.service.stage? id = some (.submitting p n))
    (hr : s.relay e = some (.returned id (.failed causes))) {k : Nat} {j : Instance}
    (hj : (s.step e).engines.instances[k]? = some j) : ¬j.Carries n := by
  obtain ⟨ev, rfl, hev⟩ := returned_of_relay hr
  obtain ⟨c, hc, hreturning⟩ := Fleet.returning_of_step hev
  obtain rfl := Fleet.task_of_call? hc
  have hmem := List.mem_of_find?_eq_some hc
  obtain ⟨hone, -, stage, hstage, hcall⟩ := hb.only hmem
  have hgo : c.call = .go p.model n p.limits := by
    rw [hid] at hstage
    cases hstage
    exact (Option.some.inj hcall).symm
  have hunder := h.underway c hmem _ n _ hgo
  have honly : ∀ {d : OpenCall}, d ∈ s.engines.calls → d = c := fun hd =>
    List.mem_singleton.1 (hone ▸ hd)
  generalize hp : c.progress = progress at hreturning hunder
  -- A submission fails when it has taken its search back, or when its process is not there.
  cases hreturning with
  | unlaunched => cases hunder
  | failed k' causes' =>
    cases hunder with
    | withdrawn hno =>
      refine not_carries_step (hno k) (fun d hd _ a rest failure hacting => ?_) hj
      rw [honly hd, hp] at hacting
      cases hacting
  | @absent k' a rest failure causes' hk =>
    refine not_carries_step (fun i hi hn => ?_) (fun d hd _ a' rest' failure' hacting => ?_) hj
    · have hrecorded := hb.carried k i n hi hn
      cases hunder with
      | opening => exact hb.fresh hmem hgo hp k hrecorded
      | recorded hgiven | broken hgiven =>
        have hnone := hgiven.recorded
        rw [hb.absent k' hk] at hnone
        cases hnone
    · rw [honly hd, hp] at hacting
      obtain ⟨rfl, -⟩ := Progress.acting.inj hacting
      exact hk

/-- What the service does to the slot hands the search on in order. -/
theorem Custody.touched (h : Custody s s.service.handoff.armed J) (hb : Backed s J)
    (ha : s.service.aborted = false) (hasked : ∀ k, Asked (enter J s e k))
    (hraces : ∀ k, s.engines.races k = false) {e' : Service.Event}
    (hr : s.relay e = some e') {out : Service × Option Service.Effect}
    (htouches : Service.Touches s.service e' out)
    (hengines : (s.step e).engines = System.takeUp (s.engineStep e).1 out.2) :
    Custody (s.step e) out.1.handoff.armed (enter J s e) := by
  have hclear := fun k j => h.clear_step (k := k) (j := j) hb hasked
  -- A submission under way is not new, unless the service brings one about.
  have hold : Service.Submitless out.2 → ∀ c ∈ (s.step e).engines.calls, ∀ model n limits,
      c.call = .go model n limits → c ∈ (s.engineStep e).1.calls := by
    intro hnone c hc model n limits hgo
    rw [hengines] at hc
    rcases mem_calls_takeUp hc with hc | ⟨id, call, heffect, rfl⟩
    · exact hc
    · cases hgo
      exact absurd heffect (hnone id model n limits)
  cases htouches with
  | nothing harmed hnone =>
    rw [harmed]
    exact ⟨hclear, fun c hc model n limits hgo =>
      h.underway_engines hb ha hasked hraces (hold hnone c hc model n limits hgo) hgo⟩
  | emptied harmed hnone =>
    rw [harmed]
    exact h.emptied hb ha hasked hraces hr (hold hnone)
  | @armed id p n _ hempty harmed heffect =>
    refine ⟨fun k j hj => ?_, fun c hc model m limits hgo => ?_⟩
    · have hj' := hclear k j hj
      rw [hempty] at hj'
      exact hj'.of_empty _
    · rw [hengines] at hc
      rcases mem_calls_takeUp hc with hc | ⟨id', call, heffect', rfl⟩
      · rw [calls_of_returned hb.served ha hr] at hc
        cases hc
      · cases hgo
        cases heffect.symm.trans heffect'
        exact .opening harmed
  | @withdrawn id p n causes _ hid harmed hnone =>
    rw [harmed]
    refine ⟨fun k j hj => ?_, fun c hc model m limits hgo => ?_⟩
    · split
      next hn =>
        refine (hclear k j hj).release fun m hm => ?_
        cases hn.symm.trans hm
        exact h.not_carries_of_failed hb hid hr hj
      · exact hclear k j hj
    · have hc' := hold hnone c hc model m limits hgo
      rw [calls_of_returned hb.served ha hr] at hc'
      cases hc'

/-- A step that breaks no rule hands the search on in order. -/
theorem Custody.step (h : Custody s s.service.handoff.armed J) (hb : Backed s J)
    (hu : s.service.Undisturbed) (ho : s.service.Orderly) (hs : s.service.handoff.Sound)
    (hasked : ∀ k, Asked (enter J s e k)) (hraces : ∀ k, s.engines.races k = false) :
    Custody (s.step e) (s.step e).service.handoff.armed (enter J s e) ∧
      (s.step e).service.aborted = false ∧
      (s.step e).service.Replies fun r => ∃ o, r = .ok o := by
  have ha := hu.going
  cases hr : s.relay e with
  | none =>
    have hengines : (s.step e).engines = (s.engineStep e).1 := by rw [System.step_eq, hr]
    rw [System.service_of_unseen hr]
    refine ⟨⟨fun k j hj => h.clear_step hb hasked hj, fun c hc model n limits hgo => ?_⟩, ha,
      hu.unerring⟩
    exact h.underway_engines hb ha hasked hraces (hengines ▸ hc) hgo
  | some e' =>
    have hengines : (s.step e).engines =
        System.takeUp (s.engineStep e).1 (s.service.step e').2 := by rw [System.step_eq, hr]
    have hcrash : ∀ id message, e' ≠ .returned id (.crashed message) := by
      rintro id message rfl
      exact uncrashed_of_relay hr
    have hmatch : ∀ c, e' = .completed c → (s.service.handoff.fulfill c).1 = .ok () := by
      rintro c rfl
      obtain ⟨-, -, n, -, -, -, -, -, hn, harmed⟩ := h.taken hr
      simp [Handoff.fulfill, harmed, hn]
    obtain ⟨htouches, hgoing⟩ := Service.touches_step hu ho hcrash hmatch
    rw [System.service_of_seen hr]
    exact ⟨h.touched hb ha hasked hraces hr htouches hengines, hgoing,
      Service.unerring_step hu hs hmatch⟩

end Step

/-! ## Every run -/

/-- Whether the processes behave throughout a run: none answers a search that it has not been told
to start, and the end of none races with the submission of a search. -/
structure Behaves (s : System Fleet) (es : List Occurrence) : Prop where
  asked : ∀ before, before <+: es → ∀ k,
    (answersPrinted s k before).length ≤ goesWritten s k before
  unraced : ∀ before, before <+: es → ∀ k, (s.after before).engines.races k = false

theorem Behaves.of_isPrefix {s : System Fleet} {xs ys : List Occurrence} (h : Behaves s ys)
    (hxs : xs <+: ys) : Behaves s xs :=
  ⟨fun before hb => h.asked before (hb.trans hxs), fun before hb => h.unraced before (hb.trans hxs)⟩

section Run

variable {settings : EngineSettings} {table : Table} {policy : FailurePolicy}
  {es : List Occurrence}

theorem Behaves.journals_asked (h : Behaves (start settings table policy) es) (k : Nat) :
    Asked (journals settings table policy es k) :=
  Nat.le_trans (answersHeard_isPrefix_printed k es).length_le (h.asked es List.prefix_rfl k)

theorem backed_after (ha : ((start settings table policy).after es).service.aborted = false) :
    Backed ((start settings table policy).after es) (journals settings table policy es) := by
  refine ⟨kept_after es, served_after ha, ?_, ?_⟩
  · rintro k i n hi (⟨-, hn⟩ | ⟨o, ho⟩)
    · rw [current_of_journal hi] at hn
      obtain ⟨before, during, hjournal, -⟩ := current_eq_some.1 hn
      rw [journals, hjournal]
      simp
    · have hmem : ⟨some n, o⟩ ∈
          completions none (journalOf (start settings table policy) k es) := by
        rw [← deliveries_of_journal hi]
        exact List.mem_append_right _ ho
      obtain ⟨before, during, a, later, hjournal, -⟩ := mem_completions hmem
      rw [journals, hjournal]
      simp
  · intro k hk
    have hnone := process_after settings table policy k es
    rw [hk] at hnone
    exact hnone.2 _ _

theorem owned_after_start
    (ha : ((start settings table policy).after es).service.aborted = false) (n : SearchId)
    (hn : ((start settings table policy).after es).service.handoff.armed = some n) :
    ((start settings table policy).after es).service.Searching n := by
  rw [System.service_after] at ha hn ⊢
  exact Service.owned_of_uncrashed (uncrashed_relayed _ es) ha n hn

/-- As long as the processes behave, no rule of the handoff is broken, and the armed search is in
the hands of one process. -/
theorem custody_after (h : Behaves (start settings table policy) es) :
    ((start settings table policy).after es).service.Undisturbed ∧
      Custody ((start settings table policy).after es)
        ((start settings table policy).after es).service.handoff.armed
        (journals settings table policy es) := by
  induction es using List.reverseRecOn with
  | nil =>
    refine ⟨⟨rfl, fun n hn => (by cases hn), fun n r hbox => (by cases hbox)⟩, ?_, ?_⟩
    · intro k i hi
      cases hi
    · intro c hc
      cases hc
  | append_singleton es e ih =>
    obtain ⟨hu, hcustody⟩ := ih (h.of_isPrefix (List.prefix_append es [e]))
    obtain ⟨hcustody', hgo, hreplies⟩ := hcustody.step (e := e) (backed_after hu.going) hu
      (orderly_after_start settings table policy es) (sound_after_start es)
      (fun k => by rw [← journals_concat]; exact h.journals_asked k)
      (h.unraced es (List.prefix_append es [e]))
    rw [← System.after_concat] at hcustody' hgo hreplies
    rw [← journals_concat] at hcustody'
    exact ⟨⟨hgo, owned_after_start hgo, hreplies⟩, hcustody'⟩

end Run

end Sparring.Uci
