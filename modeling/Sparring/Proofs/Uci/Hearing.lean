import Sparring.Proofs.Uci.Answers
import Sparring.Proofs.Uci.LastLook

/-!
# What is heard in the end

A reader goes on until it comes to a line that is not UTF-8 or to the end of the output. As long as
it goes on, two of its steps take one line at least; once it does not, it has heard all that it will
ever hear, which is all that the process has printed as far as it is UTF-8. So an answer that has
been printed is heard when the reader has had enough turns (`heard_in_time`).
-/

namespace Sparring.Uci

/-- Whether a deed is a step of the reader. -/
def Deed.isRead : Deed → Bool
  | .read => true
  | _ => false

theorem replies_of_isPrefix {xs ys : List (List UInt8)} (h : xs <+: ys) :
    replies xs <+: replies ys := by
  obtain ⟨zs, rfl⟩ := h
  exact replies_prefix xs zs

namespace Instance

variable {i : Instance} {d : Deed}

/-! ## Readers that go on -/

/-- Whether the reader of a process goes on. -/
def Live (i : Instance) : Prop := i.reader = .reading ∨ ∃ c, i.reader = .delivering c

theorem live_of_perform (h : (i.perform d).Live) : i.Live := by
  cases d with
  | read =>
    have hread := reading_read i
    simp only [perform] at h
    generalize i.read = out at hread h
    cases hread with
    | waits hr | exhausted hr | bad hr | answer hr | ack hr | other hr => exact Or.inl hr
    | delivers hr => exact Or.inr ⟨_, hr⟩
    | ended => exact h
    | looksAt | looks | reports => rcases h with h | ⟨c, h⟩ <;> cases h
  | print bytes | write line =>
    simp only [perform] at h
    split at h <;> exact h
  | closeOutput | closeInput | record | withdraw | takeAck => exact h

theorem takenLines_of_dead (h : ¬i.Live) (deeds : List Deed) : i.takenLines deeds = [] := by
  induction deeds generalizing i with
  | nil => rfl
  | cons d deeds ih =>
    rw [takenLines, observe, taken_eq_nil fun hr => h (Or.inl hr)]
    exact ih fun hl => h (live_of_perform hl)

/-- What stands after a line that is not UTF-8 is not heard. -/
theorem replies_of_unreadable {xs : List (List UInt8)} (h : ¬Readable xs)
    (ys : List (List UInt8)) : replies (xs ++ ys) = replies xs := by
  induction xs with
  | nil => exact absurd (fun _ hb => by cases hb) h
  | cons bytes xs ih =>
    rw [List.cons_append, replies, replies]
    cases hd : decodeUtf8? bytes with
    | none => rfl
    | some line =>
      refine congrArg _ (ih fun hreadable => h fun b hb => ?_)
      rcases List.mem_cons.1 hb with rfl | hb
      · rw [hd]
        rfl
      · exact hreadable b hb

/-- Why a reader does not go on: it has taken a line that is not UTF-8, or there is none left. -/
def Stopped (i : Instance) (ls : List (List UInt8)) : Prop :=
  ¬Readable ls ∨ i.outputOpen = false ∧ lines i.output i.outputOpen = []

theorem Stopped.perform {ls : List (List UInt8)} (h : i.Stopped ls) (hl : ¬i.Live) (d : Deed) :
    (i.perform d).Stopped (ls ++ i.taken d) := by
  rw [taken_eq_nil fun hr => hl (Or.inl hr), List.append_nil]
  refine h.imp_right fun ⟨hclosed, hnone⟩ => ?_
  have hsame : (i.perform d).output = i.output ∧ (i.perform d).outputOpen = i.outputOpen := by
    cases d with
    | read =>
      have hread := reading_read i
      simp only [Instance.perform]
      generalize i.read = out at hread
      cases hread with
      | waits hr | exhausted hr | bad hr | answer hr | ack hr | other hr =>
        exact absurd (Or.inl hr) hl
      | delivers | looksAt | looks | reports | ended => exact ⟨rfl, rfl⟩
    | print bytes | write line =>
      simp only [Instance.perform]
      split
      next hopen => first | exact ⟨rfl, rfl⟩ | cases hclosed.symm.trans hopen
      · exact ⟨rfl, rfl⟩
    | closeOutput => exact ⟨rfl, hclosed.symm⟩
    | closeInput | record | withdraw | takeAck => exact ⟨rfl, rfl⟩
  rw [hsame.1, hsame.2]
  exact ⟨hclosed, hnone⟩

/-- A reader goes on as long as it comes neither to a line that is not UTF-8 nor to the end. -/
theorem stopped_of_perform {ls : List (List UInt8)} (hl : i.Live) (h : ¬(i.perform d).Live) :
    (i.perform d).Stopped (ls ++ i.taken d) := by
  cases d with
  | read =>
    have hread := reading_read i
    simp only [perform] at h ⊢
    generalize i.read = out at hread h ⊢
    cases hread with
    | exhausted hr hf => exact Or.inr (lines_of_over hf)
    | @bad bytes _ hr hf hd =>
      rw [taken_of_line hr hf]
      refine Or.inl fun hreadable => ?_
      have hsome := hreadable bytes (by simp)
      rw [hd] at hsome
      cases hsome
    | waits | ended => exact absurd hl h
    | answer => exact absurd (Or.inr ⟨_, rfl⟩) h
    | ack hr | other hr => exact absurd (Or.inl hr) h
    | delivers => exact absurd (Or.inl rfl) h
    | looksAt hr | looks hr | reports hr =>
      rcases hl with hl | ⟨c, hl⟩ <;> cases hr.symm.trans hl
  | print bytes | write line =>
    simp only [perform] at h
    split at h <;> exact absurd hl h
  | closeOutput | closeInput | record | withdraw | takeAck => exact absurd hl h

/-- A reader goes on or has come to its end. -/
theorem live_or_stopped (model : String) (deeds : List Deed) :
    ((new model).performs deeds).Live ∨
      ((new model).performs deeds).Stopped ((new model).takenLines deeds) := by
  induction deeds using List.reverseRecOn with
  | nil => exact Or.inl (Or.inl rfl)
  | append_singleton deeds d ih =>
    rw [performs_concat, takenLines_concat]
    by_cases hl : (((new model).performs deeds).perform d).Live
    · exact Or.inl hl
    · by_cases hbefore : ((new model).performs deeds).Live
      · exact Or.inr (stopped_of_perform hbefore hl)
      · exact Or.inr ((ih.resolve_left hbefore).perform hbefore d)

/-- A reader that has come to its end has heard all that the process says. -/
theorem Stopped.heard {bytes : List UInt8} {ls : List (List UInt8)} (h : i.Stopped ls)
    (hf : i.Framed bytes ls) : replies (Uci.lines bytes i.outputOpen) = replies ls := by
  rw [← hf.lines]
  rcases h with hbad | ⟨-, hnone⟩
  · exact replies_of_unreadable hbad _
  · rw [hnone, List.append_nil]

/-! ## After the look -/

theorem marks_of_looked (h : .looked ∈ i.marks d) :
    d = .read ∧ i.reader = .closing ∧ i.marks d = [.looked] := by
  cases d with
  | read =>
    have hclosing : i.reader = .closing := by
      rcases List.mem_append.1 h with h | h
      · obtain ⟨_, -, h⟩ := List.mem_map.1 h
        cases h
      · by_contra hne
        rw [if_neg hne] at h
        cases h
    exact ⟨rfl, hclosing, marks_of_closing hclosing⟩
  | write line =>
    simp only [marks] at h
    split at h
    · cases List.mem_singleton.1 h
    · cases h
  | record | withdraw => cases List.mem_singleton.1 h
  | takeAck =>
    obtain ⟨_, -, h⟩ := List.mem_map.1 h
    cases h
  | print | closeOutput | closeInput => cases h

/-- A reader that has looked for a current search does not go on. -/
theorem dead_of_looked (model : String) {deeds : List Deed}
    (h : .looked ∈ (new model).journal deeds) : ¬((new model).performs deeds).Live := by
  induction deeds using List.reverseRecOn with
  | nil => cases h
  | append_singleton deeds d ih =>
    rw [journal_concat, List.mem_append] at h
    rw [performs_concat]
    rcases h with h | h
    · exact fun hl => ih h (live_of_perform hl)
    · obtain ⟨rfl, hr, -⟩ := marks_of_looked h
      intro hl
      rcases live_of_perform hl with hl | ⟨c, hl⟩ <;> cases hr.symm.trans hl

theorem heard_after_looked (model : String) {deeds : List Deed} {xs ys : List Mark}
    (h : (new model).journal deeds = xs ++ .looked :: ys) : heard ys = [] := by
  induction deeds using List.reverseRecOn generalizing ys with
  | nil => simp [journal] at h
  | append_singleton deeds d ih =>
    rw [journal_concat] at h
    have hnew : .looked :: ys = ((new model).performs deeds).marks d → heard ys = [] := by
      intro hmarks
      obtain ⟨-, -, hone⟩ := marks_of_looked (hmarks ▸ List.mem_cons_self)
      rw [hone] at hmarks
      rw [(List.cons.inj hmarks).2]
      rfl
    rcases List.append_eq_append_iff.1 h with ⟨zs, -, hzs⟩ | ⟨zs, hjournal, hzs⟩
    · obtain ⟨-, -, hone⟩ := marks_of_looked
        (show .looked ∈ ((new model).performs deeds).marks d by rw [hzs]; simp)
      rw [hone] at hzs
      cases zs with
      | nil => exact hnew (hone ▸ hzs.symm)
      | cons z zs =>
        have hlength := congrArg List.length hzs
        simp at hlength
    · cases zs with
      | nil => exact hnew hzs
      | cons z zs =>
        rw [List.cons_append] at hzs
        obtain ⟨rfl, rfl⟩ := List.cons.inj hzs
        have hdead := dead_of_looked model (show .looked ∈ (new model).journal deeds by
          rw [hjournal]; simp)
        rw [heard_append, ih hjournal, heard_marks, taken_eq_nil fun hr => hdead (Or.inl hr)]
        rfl

/-! ## In time -/

theorem lines_isPrefix_perform (bytes : List UInt8) (i : Instance) (d : Deed) :
    Uci.lines bytes i.outputOpen <+:
      Uci.lines (bytes ++ i.printed d) (i.perform d).outputOpen := by
  cases d with
  | print more =>
    simp only [perform, printed]
    split
    next hopen =>
      simp only [hopen]
      rw [lines_print]
      exact List.prefix_append _ _
    · exact ⟨[], by simp⟩
  | closeOutput =>
    simp only [perform, printed, List.append_nil]
    cases i.outputOpen with
    | true =>
      rw [lines_close]
      exact List.prefix_append _ _
    | false => exact List.prefix_rfl
  | read =>
    have hread := reading_read i
    simp only [perform, printed, List.append_nil]
    generalize i.read = out at hread
    cases hread <;> exact List.prefix_rfl
  | write line =>
    simp only [perform, printed, List.append_nil]
    split <;> exact List.prefix_rfl
  | closeInput | record | withdraw | takeAck =>
    simp only [perform, printed, List.append_nil]
    exact List.prefix_rfl

/-- How many steps of the reader have been of use: a line takes two of them at most. -/
def useful (i : Instance) (lines : Nat) : Nat := 2 * lines + if i.reader = .reading then 1 else 0

/-- While a line is left, a step of a reader that goes on is of use, or it is the last. -/
theorem useful_read {bytes : List UInt8} {ls : List (List UInt8)} (hf : i.Framed bytes ls)
    (hl : i.Live) (hmore : ls.length < (Uci.lines bytes i.outputOpen).length)
    (hl' : i.read.1.Live) :
    i.useful ls.length < i.read.1.useful (ls ++ i.taken .read).length := by
  have hread := reading_read i
  generalize i.read = out at hread hl'
  have hline : ∀ {line rest}, i.reader = .reading → i.find = .line line rest →
      (ls ++ i.taken .read).length = ls.length + 1 := by
    intro line rest hr hfound
    rw [taken_of_line hr hfound, List.length_append]
    rfl
  -- A step takes a line, or delivers what the last one has given rise to.
  cases hread with
  | waits hr hfound =>
    rw [← hf.lines, (lines_of_nothing hfound).2, List.append_nil] at hmore
    exact absurd hmore (Nat.lt_irrefl _)
  | answer hr hfound =>
    rw [useful, useful, hline hr hfound, hr]
    simp
    omega
  | ack hr hfound | other hr hfound =>
    rw [useful, useful, hline hr hfound]
    simp only [hr, if_true]
    omega
  | delivers hr =>
    rw [useful, useful, taken_eq_nil fun hr' => (by cases hr.symm.trans hr'), hr]
    simp
  | ended hr => rcases hl with hl | ⟨c, hl⟩ <;> cases hr.symm.trans hl
  | exhausted | bad | looksAt | looks | reports => rcases hl' with hl' | ⟨c, hl'⟩ <;> cases hl'

theorem useful_of_ne (hd : d ≠ .read) (lines : Nat) :
    (i.perform d).useful lines = i.useful lines := by
  cases d with
  | read => exact absurd rfl hd
  | print bytes | write line =>
    simp only [perform]
    split <;> rfl
  | closeOutput | closeInput | record | withdraw | takeAck => rfl

theorem Framed.performs {bytes : List UInt8} {ls : List (List UInt8)} (h : i.Framed bytes ls)
    (deeds : List Deed) :
    (i.performs deeds).Framed (bytes ++ i.printout deeds) (ls ++ i.takenLines deeds) := by
  induction deeds using List.reverseRecOn with
  | nil => simpa [printout, takenLines] using h
  | append_singleton deeds d ih =>
    rw [performs_concat, printout_concat, takenLines_concat, ← List.append_assoc,
      ← List.append_assoc]
    exact ih.perform d

theorem lines_isPrefix_performs (bytes : List UInt8) (i : Instance) (deeds : List Deed) :
    Uci.lines bytes i.outputOpen <+:
      Uci.lines (bytes ++ i.printout deeds) (i.performs deeds).outputOpen := by
  induction deeds using List.reverseRecOn with
  | nil => simp [printout]
  | append_singleton deeds d ih =>
    rw [performs_concat, printout_concat, ← List.append_assoc]
    exact ih.trans (lines_isPrefix_perform _ _ d)

/-- As long as the reader goes on and has not taken the lines that were there, all its steps have
been of use. -/
theorem useful_performs {bytes : List UInt8} {ls : List (List UInt8)} (hf : i.Framed bytes ls)
    {deeds : List Deed} (hl : (i.performs deeds).Live)
    (hmore : (ls ++ i.takenLines deeds).length < (Uci.lines bytes i.outputOpen).length) :
    deeds.countP Deed.isRead ≤ (i.performs deeds).useful (ls ++ i.takenLines deeds).length := by
  induction deeds using List.reverseRecOn with
  | nil => exact Nat.zero_le _
  | append_singleton deeds d ih =>
    have hprinted := (lines_isPrefix_performs bytes i deeds).length_le
    rw [performs_concat] at hl ⊢
    rw [takenLines_concat, ← List.append_assoc] at hmore ⊢
    have hfew : (ls ++ i.takenLines deeds).length < (Uci.lines bytes i.outputOpen).length := by
      rw [List.length_append] at hmore
      omega
    have hbefore := ih (live_of_perform hl) hfew
    rw [List.countP_append]
    by_cases hd : d = .read
    · subst hd
      have hone : [Deed.read].countP Deed.isRead = 1 := rfl
      have huseful := useful_read (hf.performs deeds) (live_of_perform hl) (by omega) hl
      rw [hone, perform]
      omega
    · have hnone : [d].countP Deed.isRead = 0 := by cases d <;> first | rfl | exact absurd rfl hd
      have htaken : (i.performs deeds).taken d = [] := by
        cases d <;> first | rfl | exact absurd rfl hd
      rw [hnone, htaken, List.append_nil, useful_of_ne hd]
      exact hbefore

/-- When the reader has taken two steps for every line, it has taken these lines or has come to its
end. -/
theorem taken_in_time {bytes : List UInt8} {ls : List (List UInt8)} (hf : i.Framed bytes ls)
    {deeds : List Deed} (hl : (i.performs deeds).Live)
    (hreads : 2 * (Uci.lines bytes i.outputOpen).length ≤ deeds.countP Deed.isRead) :
    (Uci.lines bytes i.outputOpen).length ≤ (ls ++ i.takenLines deeds).length := by
  by_contra hmore
  have huseful := useful_performs hf hl (Nat.lt_of_not_le hmore)
  have hone : (if (i.performs deeds).reader = .reading then 1 else 0) ≤ 1 := by split <;> omega
  rw [useful] at huseful
  omega

end Instance

/-! ## Every run -/

section Run

variable {s : System Fleet} {k : Nat} {i : Instance}

theorem instance_after (hi : s.engines.instances[k]? = some i) (more : List Occurrence) :
    (s.after more).engines.instances[k]? = some (i.performs (history s k more)) ∧
      ∀ (α : Type) (look : Instance → Deed → List α),
        shown s k look more = observe Instance.perform look i (history s k more) := by
  induction more generalizing s i with
  | nil => exact ⟨hi, fun _ _ => rfl⟩
  | cons e more ih =>
    obtain ⟨hi', hshown⟩ := ih (instance_step hi e)
    have hhistory : history s k (e :: more) = deedsOf s k e ++ history (s.step e) k more := rfl
    rw [System.after_cons, hi', hhistory, Instance.performs_append]
    refine ⟨rfl, fun α look => ?_⟩
    have hcons : shown s k look (e :: more) = showing k look s e ++ shown (s.step e) k look more :=
      rfl
    rw [hcons, hshown, observe_append, showing, hi]
    rfl

/-- Whether an event is a step of the reader of a process. -/
def readsOf (k : Nat) : Occurrence → Bool
  | .engine (.read process) => process = k
  | _ => false

theorem eq_of_readsOf {e : Occurrence} (h : readsOf k e = true) : e = .engine (.read k) := by
  cases e with
  | start | run | hangUp => cases h
  | engine e =>
    cases e with
    | read process => rw [of_decide_eq_true h]
    | launched | proceed | print | closeOutput | closeInput => cases h

/-- The last of the steps that a reader takes. -/
theorem exists_last_read {more : List Occurrence} {times : Nat}
    (h : times < more.countP (readsOf k)) :
    ∃ xs ys, more = xs ++ .engine (.read k) :: ys ∧ times ≤ xs.countP (readsOf k) := by
  induction more using List.reverseRecOn with
  | nil => cases h
  | append_singleton more e ih =>
    rw [List.countP_append] at h
    by_cases he : readsOf k e = true
    · refine ⟨more, [], by rw [eq_of_readsOf he], ?_⟩
      have hone := List.countP_le_length (p := readsOf k) (l := [e])
      rw [List.length_singleton] at hone
      omega
    · have hnone : [e].countP (readsOf k) = 0 := by simp [he]
      rw [hnone] at h
      obtain ⟨xs, ys, rfl, hxs⟩ := ih h
      exact ⟨xs, ys ++ [e], by simp, hxs⟩

/-- As long as the system goes on, no step of the reader is lost. -/
theorem countP_readsOf_le (hi : s.engines.instances[k]? = some i) {more : List Occurrence}
    (ha : (s.after more).service.aborted = false) :
    more.countP (readsOf k) ≤ (history s k more).countP Deed.isRead := by
  induction more generalizing s i with
  | nil => exact Nat.zero_le _
  | cons e more ih =>
    have hall : (s.after ([] ++ e :: more)).service.aborted = false := ha
    have hgo : s.service.aborted = false := System.going_of_append hall
    have hmore := ih (instance_step hi e) ha
    have hone : [e].countP (readsOf k) ≤ (deedsOf s k e).countP Deed.isRead := by
      by_cases he : readsOf k e = true
      · obtain rfl := eq_of_readsOf he
        simp [deedsOf, hgo, hi, Fleet.deeds, readsOf, Deed.isRead]
      · simp [he]
    have hhistory : history s k (e :: more) = deedsOf s k e ++ history (s.step e) k more := rfl
    rw [hhistory, List.countP_append, show e :: more = [e] ++ more from rfl, List.countP_append]
    omega

/-- What the reader has to deliver it delivers when it takes its step. -/
theorem delivered_of_pending (hi : s.engines.instances[k]? = some i)
    (ha : s.service.aborted = false) {c : Completion} (hc : c ∈ i.pending) :
    showing k Instance.delivered s (.engine (.read k)) = [c] := by
  have hdeeds : deedsOf s k (.engine (.read k)) = [.read] := by
    simp [deedsOf, ha, hi, Fleet.deeds]
  simp only [showing, hi, hdeeds, observe, List.append_nil, Instance.delivered]
  cases hr : i.reader with
  | delivering c' | reporting c' =>
    rw [Instance.pending, hr] at hc
    rw [List.mem_singleton.1 hc, Instance.read, hr]
    rfl
  | reading | closing | ended =>
    rw [Instance.pending, hr] at hc
    cases hc

end Run

section Run

variable {settings : EngineSettings} {table : Table} {policy : FailurePolicy} {k : Nat}
  {es : List Occurrence} {i : Instance}

/-- The lines that a process has printed. -/
def linesPrinted (s : System Fleet) (k : Nat) (es : List Occurrence) : List (List UInt8) :=
  lines (printoutOf s k es) (outputOpen s k es)

theorem outputOpen_of_some {s : System Fleet} (hi : (s.after es).engines.instances[k]? = some i) :
    outputOpen s k es = i.outputOpen := by
  rw [outputOpen, hi]
  rfl

theorem linesPrinted_of_absent
    (hi : ((start settings table policy).after es).engines.instances[k]? = none) :
    linesPrinted (start settings table policy) k es = [] := by
  have hnone := process_after settings table policy k es
  rw [hi] at hnone
  rw [linesPrinted, printoutOf, hnone.2, lines_nil]

/-- A process is what its history has made of it, and goes on from there. -/
theorem process_goes_on
    (hi : ((start settings table policy).after es).engines.instances[k]? = some i)
    (more : List Occurrence) :
    ∃ model deeds, i = (Instance.new model).performs deeds ∧
      ((start settings table policy).after (es ++ more)).engines.instances[k]? =
        some ((Instance.new model).performs
          (deeds ++ history ((start settings table policy).after es) k more)) ∧
      (∀ (α : Type) (look : Instance → Deed → List α),
        shown (start settings table policy) k look es =
          observe Instance.perform look (Instance.new model) deeds) ∧
      ∀ (α : Type) (look : Instance → Deed → List α),
        shown (start settings table policy) k look (es ++ more) =
          observe Instance.perform look (Instance.new model)
            (deeds ++ history ((start settings table policy).after es) k more) := by
  obtain ⟨model, deeds, rfl, hshown⟩ := process_of_some hi
  obtain ⟨hi', hmore⟩ := instance_after hi more
  refine ⟨model, deeds, rfl, ?_, hshown, fun α look => ?_⟩
  · rw [System.after_append, hi', Instance.performs_append]
  · rw [observe_append, ← hshown]
    exact (observe_append ..).trans (congrArg _ (hmore α look))

theorem linesPrinted_isPrefix (k : Nat) (xs ys : List Occurrence) :
    linesPrinted (start settings table policy) k xs <+:
      linesPrinted (start settings table policy) k (xs ++ ys) := by
  cases hi : ((start settings table policy).after xs).engines.instances[k]? with
  | none =>
    rw [linesPrinted_of_absent hi]
    exact List.nil_prefix
  | some i =>
    obtain ⟨model, deeds, rfl, hi', hshown, hshown'⟩ := process_goes_on hi ys
    rw [linesPrinted, linesPrinted, outputOpen_of_some hi, outputOpen_of_some hi', printoutOf,
      printoutOf, hshown, hshown', observe_append, Instance.performs_append]
    exact Instance.lines_isPrefix_performs _ _ _

theorem answersPrinted_isPrefix (k : Nat) (xs ys : List Occurrence) :
    answersPrinted (start settings table policy) k xs <+:
      answersPrinted (start settings table policy) k (xs ++ ys) :=
  (replies_of_isPrefix (linesPrinted_isPrefix k xs ys)).filterMap _

/-- A reader that does not go on has heard all answers that it will ever hear. -/
theorem answersHeard_of_dead
    (hi : ((start settings table policy).after es).engines.instances[k]? = some i)
    (hdead : ¬i.Live) :
    answersHeard (start settings table policy) k es =
        answersPrinted (start settings table policy) k es ∧
      ∀ more, answersHeard (start settings table policy) k (es ++ more) =
        answersHeard (start settings table policy) k es := by
  constructor
  · obtain ⟨model, deeds, rfl, hshown⟩ := process_of_some hi
    have hstopped := (Instance.live_or_stopped model deeds).resolve_left hdead
    have hheard := hstopped.heard (Instance.framed model deeds)
    rw [answersHeard, answersPrinted, outputOpen_of_some hi, journalOf, printoutOf, hshown, hshown]
    exact congrArg answers ((Instance.heard_journal model deeds).trans hheard.symm)
  · intro more
    obtain ⟨model, deeds, rfl, -, hshown, hshown'⟩ := process_goes_on hi more
    have hmore := Instance.takenLines_of_dead hdead
      (history ((start settings table policy).after es) k more)
    have htaken : (Instance.new model).takenLines
        (deeds ++ history ((start settings table policy).after es) k more) =
          (Instance.new model).takenLines deeds := by
      rw [Instance.takenLines, observe_append]
      exact (congrArg _ hmore).trans (List.append_nil _)
    rw [answersHeard, answersHeard, journalOf, journalOf, hshown, hshown']
    refine congrArg answers ((Instance.heard_journal model _).trans ?_)
    rw [htaken]
    exact (Instance.heard_journal model deeds).symm

/-- An answer that has been printed is heard when the reader has taken two steps for every line. -/
theorem heard_in_time {more : List Occurrence}
    (ha : ((start settings table policy).after (es ++ more)).service.aborted = false)
    (hreads : 2 * (linesPrinted (start settings table policy) k es).length ≤
      more.countP (readsOf k)) :
    answersPrinted (start settings table policy) k es <+:
      answersHeard (start settings table policy) k (es ++ more) := by
  cases hi : ((start settings table policy).after es).engines.instances[k]? with
  | none =>
    have hnone := linesPrinted_of_absent hi
    rw [linesPrinted] at hnone
    rw [answersPrinted, hnone]
    exact List.nil_prefix
  | some i =>
    rw [System.after_append] at ha
    have hdone := Nat.le_trans hreads (countP_readsOf_le hi ha)
    obtain ⟨model, deeds, rfl, -, hshown, hshown'⟩ := process_goes_on hi more
    have hprefix := Instance.lines_isPrefix_performs ((Instance.new model).printout deeds)
      ((Instance.new model).performs deeds)
      (history ((start settings table policy).after es) k more)
    have hmore := (Instance.framed model deeds).performs
      (history ((start settings table policy).after es) k more)
    rw [linesPrinted, outputOpen_of_some hi, printoutOf, hshown] at hdone
    rw [answersPrinted, answersHeard, outputOpen_of_some hi, printoutOf, journalOf, hshown,
      hshown']
    have hheard := Instance.heard_journal model
      (deeds ++ history ((start settings table policy).after es) k more)
    have hstate := Instance.live_or_stopped model
      (deeds ++ history ((start settings table policy).after es) k more)
    rw [Instance.performs_append, Instance.takenLines, observe_append] at hstate
    rw [Instance.takenLines, observe_append] at hheard
    change answers _ <+: answers (heard ((Instance.new model).journal _))
    rw [hheard]
    refine List.IsPrefix.filterMap _ ?_
    -- A reader that goes on has taken all these lines; one that has come to its end has heard them.
    rcases hstate with hlive | hstopped
    · refine replies_of_isPrefix ?_
      refine List.prefix_of_prefix_length_le hprefix ⟨_, hmore.lines⟩ ?_
      exact Instance.taken_in_time (Instance.framed model deeds) hlive hdone
    · have hall := replies_of_isPrefix hprefix
      rwa [hstopped.heard hmore] at hall

/-- A completion is delivered at the next step of the reader. -/
theorem delivered_of_completion
    (ha : ((start settings table policy).after es).service.aborted = false) {c : Completion}
    (hc : c ∈ completions none (journalOf (start settings table policy) k es)) :
    c ∈ deliveriesOf (start settings table policy) k (es ++ [.engine (.read k)]) := by
  rw [deliveriesOf_append]
  cases hi : ((start settings table policy).after es).engines.instances[k]? with
  | none =>
    have hnone := process_after settings table policy k es
    rw [hi] at hnone
    rw [journalOf, hnone.2] at hc
    cases hc
  | some i =>
    rw [← deliveries_of_journal hi] at hc
    refine List.mem_append.2 ((List.mem_append.1 hc).imp_right fun hpending => ?_)
    rw [deliveriesOf, shown, observe, delivered_of_pending hi ha hpending]
    exact List.mem_cons_self

end Run

end Sparring.Uci
