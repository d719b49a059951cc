import Sparring.Proofs.Move
import Sparring.Proofs.Text.Words
import Sparring.Proofs.Uci.Hearing
import Sparring.Proofs.Uci.Records

/-!
# What a reader makes of the output

The reader of a process and the calls to it work on the current search at the same time: a call
records it or takes it back, an answer takes it away, and so does the reader at the end of the
output. Whatever comes in between, every answer and the exit give rise to one completion each, under
the search that stands at this moment, so every number that has been recorded is delivered once at
most and in order (`handling_account`).

The journal of the process has it all. What the completions are can be read off it
(`outcome_completions`, `search_completions`), and how the numbers got there is a matter of the calls
of a conducted conversation (`keeping_after`, `submitting_after`).
-/

namespace Sparring.Uci

/-! ## What a line says -/

/-- The text of an acknowledgement. -/
def Ack.line : Ack → String
  | uciOk => "uciok"
  | readyOk => "readyok"

theorem read_eq_bestMove {line : List Char} {o : Outcome} : Reply.read line = .bestMove o ↔
    ∃ rest, words line = "bestmove".toList :: rest ∧ o = outcomeOf rest.head? := by
  unfold Reply.read
  rcases words line with _ | ⟨first, rest⟩
  · simp
  · by_cases hfirst : first = "bestmove".toList
    · simp [hfirst, eq_comm]
    · have hno : ¬∃ rest', first :: rest = "bestmove".toList :: rest' ∧
          o = outcomeOf rest'.head? := fun ⟨_, h, _⟩ => hfirst (List.cons.inj h).1
      simp only [if_neg hfirst, hno, iff_false]
      split
      · exact Reply.noConfusion
      · split <;> exact Reply.noConfusion

theorem outcomeOf_eq_noLegalMove {word : Option (List Char)} : outcomeOf word = .noLegalMove ↔
    word = none ∨ word = some "(none)".toList ∨ word = some "0000".toList := by
  cases word with
  | none => exact iff_of_true rfl (Or.inl rfl)
  | some word =>
    simp only [outcomeOf, reduceCtorEq, false_or, Option.some.injEq]
    split
    next h => exact iff_of_true rfl h
    next h => exact iff_of_false (by split <;> exact Outcome.noConfusion) h

theorem outcomeOf_eq_move {word : Option (List Char)} {m : Move} : outcomeOf word = .move m ↔
    ∃ letter, word = some (m.source.chars ++ m.target.chars ++ letter) ∧
      letter.map Char.toLower = (m.promotion.map Promotion.letter).toList := by
  cases word with
  | none => simp [outcomeOf]
  | some word =>
    simp only [Option.some.injEq, ← Move.readChars_eq_ok, outcomeOf]
    split
    next h =>
      -- Neither of the words for no move is the text of a move.
      refine iff_of_false Outcome.noConfusion fun hread => ?_
      rcases h with rfl | rfl <;> cases hread
    · cases Move.readChars word <;> simp

theorem outcomeOf_cases (word : Option (List Char)) : outcomeOf word = .noLegalMove ∨
    (∃ m, outcomeOf word = .move m) ∨ ∃ message, outcomeOf word = .unreadable message := by
  cases word with
  | none => exact Or.inl rfl
  | some word =>
    generalize h : outcomeOf (some word) = o
    simp only [outcomeOf] at h
    split at h
    · exact Or.inl h.symm
    · split at h
      next m _ => exact Or.inr (Or.inl ⟨m, h.symm⟩)
      next e _ => exact Or.inr (Or.inr ⟨e.message, h.symm⟩)

theorem read_eq_ack {line : List Char} {a : Ack} :
    Reply.read line = .ack a ↔ trimBlank line = a.line.toList := by
  constructor
  · intro h
    unfold Reply.read at h
    split at h
    · split at h
      · cases h
      · split at h
        next htrim =>
          cases h
          exact htrim
        · split at h
          next htrim =>
            cases h
            exact htrim
          · cases h
    · cases h
  · intro h
    have hclear : a.line.toList.all fun c => isBlank c = false := by cases a <;> decide
    have hwords : words line = [a.line.toList] := by
      rw [← h]
      refine words_of_trimBlank ?_ ?_ <;> rw [h]
      · cases a <;> decide
      · exact fun c hc => of_decide_eq_true (List.all_eq_true.1 hclear c hc)
    cases a <;> (rw [Reply.read, hwords, h]; decide)

/-! ## What completions tell -/

/-- Whether a search has been recorded and nothing has removed it since. -/
def Stands (marks : List Mark) (n : SearchId) : Prop :=
  ∃ before during, marks = before ++ .recorded n :: during ∧ ∀ a ∈ during, a.Keeps

theorem completions_append (current : Option SearchId) (xs ys : List Mark) :
    completions current (xs ++ ys) =
      completions current xs ++ completions (xs.foldl Mark.next current) ys := observe_append ..

/-- Before the look at the end every completion is that of an answer. -/
theorem outcome_completions {marks : List Mark} (h : .looked ∉ marks) (current : Option SearchId) :
    (completions current marks).map (·.outcome) = answers (heard marks) := by
  induction marks generalizing current with
  | nil => rfl
  | cons a marks ih =>
    rw [List.mem_cons, not_or] at h
    have hrest := ih h.2 (a.next current)
    rw [completions, observe, ← completions, List.map_append, hrest]
    cases a with
    | looked => exact absurd rfl h.1
    | heard r => cases r <;> rfl
    | recorded | withdrawn | wrote | took => rfl

/-- Every search that is recorded is in one completion at most, in the order of recording. -/
theorem search_completions (current : Option SearchId) (marks : List Mark) :
    ((completions current marks).filterMap (·.search)).Sublist
      (current.toList ++ numbers marks) := by
  induction marks generalizing current with
  | nil => exact List.nil_sublist _
  | cons a marks ih =>
    have hrest := ih (a.next current)
    rw [completions, observe, ← completions, List.filterMap_append]
    cases a with
    | recorded n => exact hrest.trans (List.sublist_append_right _ _)
    | withdrawn => exact hrest.trans (List.sublist_append_right _ _)
    | wrote | took => exact hrest
    | looked =>
      have htold : ((Mark.looked).tells current).filterMap (·.search) = current.toList := by
        cases current <;> rfl
      rw [htold]
      exact (List.Sublist.refl _).append hrest
    | heard r =>
      cases r with
      | bestMove o =>
        have htold : ((Mark.heard (.bestMove o)).tells current).filterMap (·.search) =
            current.toList := by
          cases current <;> rfl
        rw [htold]
        exact (List.Sublist.refl _).append hrest
      | ack | other => exact hrest

namespace Instance

/-! ## The look at the end -/

section Look

variable {i : Instance} {d : Deed}

theorem HasLooked.perform (h : i.HasLooked) (d : Deed) :
    (i.perform d).HasLooked ∧ .looked ∉ i.marks d := by
  have hreader : i.reader ≠ .closing := by
    rcases h with h | ⟨c, h⟩ <;> rw [h] <;> exact Reader.noConfusion
  refine ⟨?_, fun hlooked => hreader (marks_of_looked hlooked).2.1⟩
  cases d with
  | read =>
    have hread := reading_read i
    simp only [Instance.perform]
    generalize i.read = out at hread
    cases hread with
    | reports => exact Or.inl rfl
    | ended => exact h
    | looksAt hr | looks hr => exact absurd hr hreader
    | waits hr | exhausted hr | bad hr | answer hr | ack hr | other hr | delivers hr =>
      rcases h with h | ⟨c, h⟩ <;> cases hr.symm.trans h
  | print | write =>
    simp only [Instance.perform]
    split <;> exact h
  | closeOutput | closeInput | record | withdraw | takeAck => exact h

theorem hasLooked_of_mem (h : .looked ∈ i.marks d) : (i.perform d).HasLooked := by
  obtain ⟨rfl, hr, -⟩ := marks_of_looked h
  have hread := reading_read i
  simp only [perform]
  generalize i.read = out at hread
  cases hread with
  | looksAt => exact Or.inr ⟨_, rfl⟩
  | looks => exact Or.inl rfl
  | waits hr' | exhausted hr' | bad hr' | answer hr' | ack hr' | other hr' =>
    cases hr.symm.trans hr'
  | delivers hr' | reports hr' | ended hr' => cases hr.symm.trans hr'

instance (i : Instance) : Decidable i.HasLooked :=
  match h : i.reader with
  | .ended => .isTrue (Or.inl h)
  | .reporting c => .isTrue (Or.inr ⟨c, h⟩)
  | .reading | .delivering _ | .closing =>
    .isFalse (by rintro (h' | ⟨c, h'⟩) <;> cases h.symm.trans h')

theorem count_looked (model : String) (deeds : List Deed) :
    ((new model).journal deeds).count .looked =
      if ((new model).performs deeds).HasLooked then 1 else 0 := by
  induction deeds using List.reverseRecOn with
  | nil => rfl
  | append_singleton deeds d ih =>
    rw [journal_concat, List.count_append, ih, performs_concat]
    generalize (new model).performs deeds = i
    by_cases hbefore : i.HasLooked
    · obtain ⟨hafter, hno⟩ := hbefore.perform d
      rw [if_pos hbefore, if_pos hafter, List.count_eq_zero.2 hno]
    · rw [if_neg hbefore]
      by_cases hlooked : .looked ∈ i.marks d
      · rw [if_pos (hasLooked_of_mem hlooked), (marks_of_looked hlooked).2.2]
        rfl
      · rw [if_neg fun hafter => hlooked ((hasLooked_perform hafter).resolve_left hbefore),
          List.count_eq_zero.2 hlooked]

end Look

end Instance

/-! ## Acknowledgements -/

/-- The acknowledgement that a reply is. -/
def Reply.ack? : Reply → Option Ack
  | .ack a => some a
  | _ => none

/-- The acknowledgement that a mark tells to have been taken. -/
def Mark.ack? : Mark → Option Ack
  | .took a => some a
  | _ => none

/-- The acknowledgements that have been taken. -/
def acksTaken (marks : List Mark) : List Ack := marks.filterMap Mark.ack?

/-- The acknowledgements among replies. -/
def acks (rs : List Reply) : List Ack := rs.filterMap Reply.ack?

namespace Instance

theorem acks_perform (i : Instance) (d : Deed) :
    acksTaken (i.marks d) ++ (i.perform d).acks = i.acks ++ Uci.acks (heard (i.marks d)) := by
  cases d with
  | read =>
    have hread := reading_read i
    simp only [perform]
    generalize i.read = out at hread
    cases hread with
    | ack hr hf hd h =>
      rw [marks_of_line hr hf hd, h]
      rfl
    | answer hr hf hd h | other hr hf hd h =>
      rw [marks_of_line hr hf hd, h]
      exact (List.append_nil _).symm
    | waits hr hf | exhausted hr hf =>
      simp [marks, taken, hr, hf, replies, acksTaken, heard, Uci.acks]
    | bad hr hf hd => simp [marks, taken, hr, hf, hd, replies, acksTaken, heard, Uci.acks]
    | looksAt hr | looks hr =>
      rw [marks_of_closing hr]
      exact (List.append_nil _).symm
    | delivers hr | reports hr | ended hr =>
      simp [marks, taken, hr, replies, acksTaken, heard, Uci.acks]
  | takeAck =>
    cases h : i.acks <;>
      simp [marks, perform, h, acksTaken, Mark.ack?, heard, Mark.reply?, Uci.acks]
  | print | write =>
    simp only [perform, marks]
    split <;> exact (List.append_nil _).symm
  | closeOutput | closeInput | record | withdraw => exact (List.append_nil _).symm

/-- The acknowledgements that have been heard are taken in order, or kept. -/
theorem acks_performs (model : String) (deeds : List Deed) :
    acksTaken ((new model).journal deeds) ++ ((new model).performs deeds).acks =
      Uci.acks (heard ((new model).journal deeds)) := by
  induction deeds using List.reverseRecOn with
  | nil => rfl
  | append_singleton deeds d ih =>
    have htaken : ∀ xs ys, acksTaken (xs ++ ys) = acksTaken xs ++ acksTaken ys := fun _ _ =>
      List.filterMap_append
    have hheard : ∀ xs ys, Uci.acks (xs ++ ys) = Uci.acks xs ++ Uci.acks ys := fun _ _ =>
      List.filterMap_append
    rw [journal_concat, performs_concat, heard_append, htaken, hheard, List.append_assoc,
      acks_perform, ← List.append_assoc, ih]

end Instance

namespace Fleet

/-! ## The account -/

/-- What has become of the output and of the searches of a process. What it has told is what its
reader has delivered, and the completion that it delivers next if it has one. -/
structure HandlingAccount (xs : List Incident) (k : Nat) (i : Instance) : Prop where
  /-- The lines are handled in the order in which they have been printed, -/
  handled : heard (journalOf k xs) <+: replies (lines (printoutOf k xs) i.outputOpen)
  /-- all of them up to the first that is not UTF-8, once the reader has none left to take or does
  not go on. -/
  all : lines i.output i.outputOpen = [] ∨ ¬i.Live →
    heard (journalOf k xs) = replies (lines (printoutOf k xs) i.outputOpen)
  /-- An answer is a line with the first word `bestmove`. The second one says what it is. -/
  answer : ∀ line o, Reply.read line = .bestMove o ↔
    ∃ rest, words line = "bestmove".toList :: rest ∧ o = outcomeOf rest.head?
  /-- There is no legal move if the word is missing or stands for none; -/
  noMove : ∀ word, outcomeOf word = .noLegalMove ↔
    word = none ∨ word = some "(none)".toList ∨ word = some "0000".toList
  /-- it is a move if the word is the text of one, the letter of a new piece in either case; -/
  move : ∀ word m, outcomeOf word = .move m ↔
    ∃ letter, word = some (m.source.chars ++ m.target.chars ++ letter) ∧
      letter.map Char.toLower = (m.promotion.map Promotion.letter).toList
  /-- and otherwise it cannot be read. -/
  unreadable : ∀ word, outcomeOf word = .noLegalMove ∨ (∃ m, outcomeOf word = .move m) ∨
    ∃ message, outcomeOf word = .unreadable message
  /-- An acknowledgement is a line that is one between blanks. -/
  ack : ∀ line a, Reply.read line = .ack a ↔ trimBlank line = a.line.toList
  /-- Any other line is taken, and that is all. -/
  other : ∀ ys zs j bytes rest line, xs = ys ++ .step (.read k) :: zs →
    (empty.after ys).instances[k]? = some j → j.reader = .reading → j.find = .line bytes rest →
    decodeUtf8? bytes = some line → Reply.read line = .other →
    (empty.after ys).step (.read k) =
      ((empty.after ys).modify k fun _ => { j with output := rest }, none)
  /-- The acknowledgements are forwarded as they have been heard. -/
  acks : acksTaken (journalOf k xs) ++ i.acks = Uci.acks (heard (journalOf k xs))
  /-- As long as the reader has not come to the end, what it tells are the answers, one by one. -/
  going : ¬i.HasLooked →
    (deliveriesOf k xs ++ i.pending).map (·.outcome) = answers (heard (journalOf k xs))
  /-- At the end it looks once. If a search stands then, its exit is told after the answers. -/
  ended : i.HasLooked → ∃ before later, journalOf k xs = before ++ .looked :: later ∧
    heard later = [] ∧ .looked ∉ before ++ later ∧
    ((∃ n, Stands before n ∧ (deliveriesOf k xs ++ i.pending).map (·.outcome) =
          answers (heard (journalOf k xs)) ++ [.engineExited] ∧
        (deliveriesOf k xs ++ i.pending).getLast? = some ⟨some n, .engineExited⟩) ∨
      (∀ n, ¬Stands before n) ∧
        (deliveriesOf k xs ++ i.pending).map (·.outcome) = answers (heard (journalOf k xs)))
  /-- An answer is told under the search that stands when its line is handled. -/
  answered : ∀ before o later, journalOf k xs = before ++ .heard (.bestMove o) :: later →
    ∃ search,
      (deliveriesOf k xs ++ i.pending)[(answers (heard before)).length]? = some ⟨search, o⟩ ∧
      ∀ n, search = some n ↔ Stands before n
  /-- The searches are recorded as they have been submitted, -/
  recorded : (numbers (journalOf k xs)).Sublist (submitted i.model xs)
  /-- and only a call whose write has failed takes one back. -/
  withdrawn : ∀ ys x zs, xs = ys ++ x :: zs →
    .withdrawn ∈ (view k).showing Instance.marks (empty.after ys) x →
    ∃ c model n limits causes, (empty.after ys).call? c.task = some c ∧
      x = .step (.proceed c.task) ∧ c.call = .go model n limits ∧
      c.progress = .acting k [.withdraw] (some causes)
  /-- A call whose write fails takes its search back next, -/
  failing : ∀ ys c zs, xs = ys ++ .step (.proceed c.task) :: zs →
    (empty.after ys).call? c.task = some c → ∀ model n limits line rest failure j,
    c.call = .go model n limits → c.progress = .acting k (.write line :: rest) failure →
    (empty.after ys).instances[k]? = some j → j.inputOpen = false →
    ∃ causes, { c with progress := .acting k [.withdraw] (some causes) } ∈
      (empty.after (ys ++ [.step (.proceed c.task)])).calls
  /-- and has taken it back when it returns the error. -/
  returned : ∀ ys c zs, xs = ys ++ .step (.proceed c.task) :: zs →
    (empty.after ys).call? c.task = some c → ∀ model n limits as failure causes,
    c.call = .go model n limits → c.progress = .acting k as failure →
    ((empty.after ys).step (.proceed c.task)).2 = some (.returned c.task (.failed causes)) →
    TakenBack (journalOf k ys) n
  /-- Each that has been recorded is told of once at most, in this order. -/
  told : ((deliveriesOf k xs ++ i.pending).filterMap (·.search)).Sublist (numbers (journalOf k xs))
  increasing : (submitted i.model xs).Pairwise (·.number < ·.number) →
    ((deliveriesOf k xs ++ i.pending).filterMap (·.search)).Pairwise (·.number < ·.number)
  once : (submitted i.model xs).Pairwise (·.number < ·.number) →
    ∀ n, (deliveriesOf k xs ++ i.pending).countP (·.search == some n) ≤ 1

section Account

variable {xs : List Incident} {k : Nat} {i : Instance}

theorem told_eq (hi : (empty.after xs).instances[k]? = some i) :
    deliveriesOf k xs ++ i.pending = completions none (journalOf k xs) :=
  of_deeds (P := fun i log _ _ told => told ++ i.pending = completions none log)
    (fun model deeds => (Instance.new model).delivered_append_pending deeds) hi

theorem framed_after (hi : (empty.after xs).instances[k]? = some i) :
    i.Framed (printoutOf k xs) (takenOf k xs) :=
  of_deeds (P := fun i _ bytes ls _ => i.Framed bytes ls) Instance.framed hi

/-- What has been heard are the lines that have been taken. -/
theorem heard_eq_taken (hi : (empty.after xs).instances[k]? = some i) :
    heard (journalOf k xs) = replies (takenOf k xs) :=
  of_deeds (P := fun _ log _ ls _ => heard log = replies ls) Instance.heard_journal hi

theorem taken_prefix (hi : (empty.after xs).instances[k]? = some i) :
    takenOf k xs <+: lines (printoutOf k xs) i.outputOpen :=
  ⟨_, (framed_after hi).lines⟩

theorem heard_prefix_after (hi : (empty.after xs).instances[k]? = some i) :
    heard (journalOf k xs) <+: replies (lines (printoutOf k xs) i.outputOpen) := by
  rw [heard_eq_taken hi, ← (framed_after hi).lines]
  exact replies_prefix _ _

theorem heard_eq_of_stopped (hi : (empty.after xs).instances[k]? = some i)
    (h : lines i.output i.outputOpen = [] ∨ ¬i.Live) :
    heard (journalOf k xs) = replies (lines (printoutOf k xs) i.outputOpen) := by
  have hframed := framed_after hi
  have hstopped := of_deeds (P := fun i _ _ ls _ => i.Live ∨ i.Stopped ls)
    Instance.live_or_stopped hi
  rw [heard_eq_taken hi]
  rcases h with hnone | hdead
  · rw [← List.append_nil (takenOf k xs), ← hnone, hframed.lines]
  · exact ((hstopped.resolve_left hdead).heard hframed).symm

theorem acks_after (hi : (empty.after xs).instances[k]? = some i) :
    acksTaken (journalOf k xs) ++ i.acks = Uci.acks (heard (journalOf k xs)) :=
  of_deeds (P := fun i log _ _ _ => acksTaken log ++ i.acks = Uci.acks (heard log))
    Instance.acks_performs hi

/-- Whatever has been told after a part of the journal has its place after what that part tells. -/
theorem completions_of_split {before later : List Mark} {a : Mark}
    (h : journalOf k xs = before ++ a :: later) : completions none (journalOf k xs) =
      completions none before ++ a.tells (before.foldl Mark.next none) ++
        completions (a.next (before.foldl Mark.next none)) later := by
  rw [h, completions_append, List.append_assoc]
  rfl

theorem heard_after_looked (hi : (empty.after xs).instances[k]? = some i)
    {before later : List Mark} (h : journalOf k xs = before ++ .looked :: later) :
    heard later = [] :=
  of_deeds (P := fun _ log _ _ _ => log = before ++ .looked :: later → heard later = [])
    (fun model _ h => Instance.heard_after_looked model h) hi h

/-- Before an answer is heard the reader has not looked. -/
theorem looked_not_mem_of_answer (hi : (empty.after xs).instances[k]? = some i)
    {before later : List Mark} {r : Reply} (h : journalOf k xs = before ++ .heard r :: later) :
    .looked ∉ before := by
  intro hlooked
  obtain ⟨front, back, rfl⟩ := List.append_of_mem hlooked
  rw [List.append_assoc, List.cons_append] at h
  have hnone := heard_after_looked hi h
  simp [heard, Mark.reply?] at hnone

theorem count_looked_eq (hi : (empty.after xs).instances[k]? = some i) :
    (journalOf k xs).count .looked = if i.HasLooked then 1 else 0 :=
  of_deeds (P := fun i log _ _ _ => log.count .looked = if i.HasLooked then 1 else 0)
    Instance.count_looked hi

theorem told_of_hasLooked (hi : (empty.after xs).instances[k]? = some i) (h : i.HasLooked) :
    ∃ before later, journalOf k xs = before ++ .looked :: later ∧ heard later = [] ∧
      .looked ∉ before ++ later ∧ (completions none before).map (·.outcome) =
        answers (heard (journalOf k xs)) ∧
      completions none (journalOf k xs) = completions none before ++
        (before.foldl Mark.next none).toList.map fun n => ⟨some n, .engineExited⟩ := by
  have hcount := count_looked_eq hi
  rw [if_pos h] at hcount
  have hmem : .looked ∈ journalOf k xs := List.count_pos_iff.1 (by omega)
  obtain ⟨before, later, hsplit⟩ := List.append_of_mem hmem
  have hheard := heard_after_looked hi hsplit
  have honce : .looked ∉ before ++ later := by
    rw [hsplit, List.count_append, List.count_cons_self] at hcount
    refine List.count_eq_zero.1 ?_
    rw [List.count_append]
    omega
  rw [List.mem_append, not_or] at honce
  have hlast : ∀ current, completions current later = [] := fun current => by
    have hnone := outcome_completions honce.2 current
    rw [hheard] at hnone
    exact List.map_eq_nil_iff.1 hnone
  refine ⟨before, later, hsplit, hheard, fun hmem => ?_, ?_, ?_⟩
  · rcases List.mem_append.1 hmem with hmem | hmem
    · exact honce.1 hmem
    · exact honce.2 hmem
  · rw [outcome_completions honce.1, hsplit, heard_append,
      show heard (.looked :: later) = heard later from rfl, hheard, List.append_nil]
  · rw [completions_of_split hsplit, hlast, List.append_nil]
    rfl

theorem told_of_answer (hi : (empty.after xs).instances[k]? = some i) {before later : List Mark}
    {o : Outcome} (h : journalOf k xs = before ++ .heard (.bestMove o) :: later) :
    (deliveriesOf k xs ++ i.pending)[(answers (heard before)).length]? =
      some ⟨before.foldl Mark.next none, o⟩ := by
  have hlength : (answers (heard before)).length = (completions none before).length := by
    rw [← outcome_completions (looked_not_mem_of_answer hi h) none, List.length_map]
  rw [told_eq hi, completions_of_split h, hlength, List.append_assoc,
    List.getElem?_append_right (Nat.le_refl _), Nat.sub_self]
  rfl

theorem step_of_other {f : Fleet} (hi : f.instances[k]? = some i) {bytes rest : List UInt8}
    {line : List Char} (hr : i.reader = .reading) (hf : i.find = .line bytes rest)
    (hd : decodeUtf8? bytes = some line) (hother : Reply.read line = .other) :
    f.step (.read k) = (f.modify k fun _ => { i with output := rest }, none) := by
  have hread : i.read = ({ i with output := rest }, none) := by
    simp [Instance.read, Instance.take, hr, hf, hd, hother]
  simp only [step, hi, hread]
  rfl

/-- Only a call whose write has failed takes a search back. -/
theorem failing_of_withdrawn (hx : empty.Conducted xs) {x : Incident}
    (h : .withdrawn ∈ (view k).showing Instance.marks (empty.after xs) x) :
    ∃ c model n limits causes, (empty.after xs).call? c.task = some c ∧
      x = .step (.proceed c.task) ∧ c.call = .go model n limits ∧
      c.progress = .acting k [.withdraw] (some causes) := by
  obtain ⟨c, hc, hproceed, j, y, rest, failure, -, hp, hmakes, -⟩ := acting_of_showing h trivial
  cases hmakes
  have hcourse := (apart_after apart_empty hx).course c (List.mem_of_find?_eq_some hc)
  obtain ⟨rfl, hfailing, model, n, limits, hgo⟩ := (hp ▸ hcourse).failing_of_withdraw
  obtain ⟨causes, rfl⟩ := Option.isSome_iff_exists.1 hfailing
  exact ⟨c, model, n, limits, causes, hc, hproceed, hgo, hp⟩

theorem withdrawing_of_broken {f : Fleet} (ha : f.Apart) {c : OpenCall}
    (hc : f.call? c.task = some c) {model : String} {n : SearchId} {limits : SearchLimits}
    (hgo : c.call = .go model n limits) {line : String} {rest : List Action}
    {failure : Option Causes} (hp : c.progress = .acting k (.write line :: rest) failure)
    {j : Instance} (hj : f.instances[k]? = some j) (hclosed : j.inputOpen = false) :
    ∃ causes, { c with progress := .acting k [.withdraw] (some causes) } ∈
      (f.step (.proceed c.task)).1.calls := by
  have hafter : afterFailure c.call = [.withdraw] := by rw [hgo]; rfl
  rw [step_of_acting hc hp hj]
  simp only [act, hclosed, Bool.false_eq_true, if_false, hafter]
  exact ⟨_, (ha.mem_advance (List.mem_of_find?_eq_some hc)).2 (Or.inl rfl)⟩

/-- A call that submits a search has taken it back when it returns an error. -/
theorem takenBack_of_failed (hx : empty.Conducted xs) {c : OpenCall}
    (hc : (empty.after xs).call? c.task = some c) {model : String} {n : SearchId}
    {limits : SearchLimits} (hgo : c.call = .go model n limits) {as : List Action}
    {failure : Option Causes} (hp : c.progress = .acting k as failure) {causes : Causes}
    (hfailed : ((empty.after xs).step (.proceed c.task)).2 =
      some (.returned c.task (.failed causes))) : TakenBack (journalOf k xs) n := by
  have hmem := List.mem_of_find?_eq_some hc
  obtain ⟨j, hj, -⟩ := (apart_after apart_empty hx).placed c hmem k as failure hp
  cases as with
  | cons a rest =>
    rw [step_of_acting hc hp hj] at hfailed
    cases hfailed
  | nil =>
    cases failure with
    | none =>
      simp only [step, hc, proceed, hp, finish] at hfailed
      cases hfailed
    | some causes' => exact (submitting_after hx c hmem).spent model n limits causes' hgo hp

end Account

/-- The reader of a process tells of every answer and of the exit once, under the search that stands
at this moment. -/
theorem handling_account {xs : List Incident} (hx : empty.Conducted xs) {k : Nat} {i : Instance}
    (hi : (empty.after xs).instances[k]? = some i) : HandlingAccount xs k i := by
  have hstands : ∀ {marks : List Mark} {n}, marks.foldl Mark.next none = some n ↔
      Stands marks n := current_eq_some
  have hrecorded : (numbers (journalOf k xs)).Sublist (submitted i.model xs) :=
    (keeping_after hx fun j hj => by cases hi.symm.trans hj; rfl).recorded
  have htold : ((deliveriesOf k xs ++ i.pending).filterMap (·.search)).Sublist
      (numbers (journalOf k xs)) := by
    rw [told_eq hi]
    exact search_completions none (journalOf k xs)
  have hincreasing : (submitted i.model xs).Pairwise (·.number < ·.number) →
      ((deliveriesOf k xs ++ i.pending).filterMap (·.search)).Pairwise (·.number < ·.number) :=
    fun hgiven => hgiven.sublist (htold.trans hrecorded)
  refine {
    handled := heard_prefix_after hi
    all := heard_eq_of_stopped hi
    answer := fun line o => read_eq_bestMove
    noMove := fun word => outcomeOf_eq_noLegalMove
    move := fun word m => outcomeOf_eq_move
    unreadable := outcomeOf_cases
    ack := fun line a => read_eq_ack
    other := fun ys zs j bytes rest line _ hj hr hf hd hother => step_of_other hj hr hf hd hother
    acks := acks_after hi
    going := ?_
    ended := ?_
    answered := fun before o later hsplit => ⟨_, told_of_answer hi hsplit, fun n => hstands⟩
    recorded := hrecorded
    withdrawn := ?_
    failing := ?_
    returned := ?_
    told := htold
    increasing := hincreasing
    once := ?_ }
  -- As long as the reader goes on it has not looked, so every completion is that of an answer.
  · intro hgoing
    have hcount := count_looked_eq hi
    rw [if_neg hgoing] at hcount
    rw [told_eq hi, outcome_completions (List.count_eq_zero.1 hcount)]
  -- The look tells the current search that the engine has exited, or tells nobody.
  · intro hlooked
    obtain ⟨before, later, hsplit, hheard, honce, hbefore, hall⟩ := told_of_hasLooked hi hlooked
    refine ⟨before, later, hsplit, hheard, honce, ?_⟩
    rw [told_eq hi, hall]
    cases hcurrent : before.foldl Mark.next none with
    | some n =>
      exact Or.inl ⟨n, hstands.1 hcurrent, by simp [hbefore], by simp⟩
    | none =>
      refine Or.inr ⟨fun n hn => ?_, by simp [hbefore]⟩
      cases hcurrent.symm.trans (hstands.2 hn)
  · intro ys x zs hxs hmark
    rw [hxs] at hx
    exact failing_of_withdrawn (throughout_append.1 hx).1 hmark
  · intro ys c zs hxs hc model n limits line rest failure j hgo hp hj hclosed
    rw [hxs] at hx
    have hapart := apart_after apart_empty (throughout_append.1 hx).1
    rw [after_concat]
    exact withdrawing_of_broken hapart hc hgo hp hj hclosed
  · intro ys c zs hxs hc model n limits as failure causes hgo hp hfailed
    rw [hxs] at hx
    exact takenBack_of_failed (throughout_append.1 hx).1 hc hgo hp hfailed
  · intro hgiven n
    have hnodup : ((deliveriesOf k xs ++ i.pending).filterMap (·.search)).Nodup :=
      (hincreasing hgiven).imp fun hlt heq =>
        absurd (congrArg SearchId.number heq) (Nat.ne_of_lt hlt)
    have hcount := List.nodup_iff_count_le_one.1 hnodup n
    rwa [List.count_filterMap] at hcount

/-! ## A conversation that breaks off -/

/-- An engine answers its first search twice. It closes its input before the line that starts the
second one is written and its output after that, and its reader comes to the end before the search
is taken back. -/
def brokenOff : List Incident :=
  creates 0 0 "elo-999" ++ .call 0 (.go "elo-999" ⟨1⟩ ⟨200, none, none⟩) :: proceeds 0 2 ++
    prints 0 "info depth 1\nbestmove e2e4\r\nbestmove (none)\n" 5 ++ proceeds 0 1 ++
    [.step (.closeInput 0), .call 0 (.go "elo-999" ⟨2⟩ ⟨200, none, none⟩)] ++ proceeds 0 2 ++
    .step (.closeOutput 0) :: List.replicate 3 (.step (.read 0)) ++ proceeds 0 2

/-- The second answer comes under no search, and the second search is ended by the exit. -/
theorem handling_of_brokenOff :
    empty.Conducted brokenOff ∧
    deliveriesOf 0 brokenOff = [⟨some ⟨1⟩, .move ⟨⟨4, 1⟩, ⟨4, 3⟩, none⟩⟩, ⟨none, .noLegalMove⟩,
      ⟨some ⟨2⟩, .engineExited⟩] ∧
    ∃ i, (empty.after brokenOff).instances[0]? = some i ∧ HandlingAccount brokenOff 0 i := by
  have hx : empty.Conducted brokenOff := by decide +kernel
  exact ⟨hx, by decide +kernel, _, rfl, handling_account hx rfl⟩

end Fleet

end Sparring.Uci
