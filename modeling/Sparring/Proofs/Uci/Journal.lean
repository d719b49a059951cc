import Sparring.Proofs.Run
import Sparring.Proofs.Uci.Stream

/-!
# The journal of an engine process

Everything that is done to a process or by its reader is one of a few *deeds*. What matters about
them for the searches goes into the *journal* of the process, mark by mark: a search recorded or
withdrawn, a line written, a reply heard, an acknowledgement taken, and the look at the current
search when the output is over.

The journal determines which search is current (`current_performs`) and what the reader delivers
(`delivered_append_pending`), and what it has heard is what the engine has printed, from the
start and in order (`heard_prefix`).
-/

namespace Sparring.Uci

/-- What can be done to a process, or by its reader. -/
inductive Deed where
  | read
  | print (bytes : List UInt8)
  | closeOutput
  | closeInput
  | write (line : String)
  | record (n : SearchId)
  | withdraw
  /-- The first of the acknowledgements is taken. -/
  | takeAck

/-- An entry in the journal of a process. -/
inductive Mark where
  | recorded (n : SearchId)
  | withdrawn
  | wrote (line : String)
  | heard (r : Reply)
  | took (a : Ack)
  /-- The output is over, and the reader has looked for a current search. -/
  | looked
deriving DecidableEq

namespace Instance

/-- The process after a deed. -/
def perform (i : Instance) : Deed → Instance
  | .read => i.read.1
  | .print bytes => if i.outputOpen then { i with output := i.output ++ bytes } else i
  | .closeOutput => { i with outputOpen := false }
  | .closeInput => { i with inputOpen := false }
  | .write line => if i.inputOpen then { i with written := i.written ++ [line ++ "\n"] } else i
  | .record n => { i with current := some n }
  | .withdraw => { i with current := none }
  | .takeAck => { i with acks := i.acks.tail }

/-- The process after a row of deeds. -/
def performs (i : Instance) (deeds : List Deed) : Instance := deeds.foldl perform i

@[simp] theorem performs_nil (i : Instance) : i.performs [] = i := rfl

theorem performs_append (i : Instance) (xs ys : List Deed) :
    i.performs (xs ++ ys) = (i.performs xs).performs ys := List.foldl_append

theorem performs_concat (i : Instance) (deeds : List Deed) (d : Deed) :
    i.performs (deeds ++ [d]) = (i.performs deeds).perform d := by
  rw [performs_append]
  rfl

/-! ## What a deed shows -/

/-- The line that a deed takes from the output. -/
def taken (i : Instance) : Deed → List (List UInt8)
  | .read =>
    match i.reader, i.find with
    | .reading, .line bytes _ => [bytes]
    | _, _ => []
  | _ => []

/-- What a deed adds to the output. -/
def printed (i : Instance) : Deed → List UInt8
  | .print bytes => if i.outputOpen then bytes else []
  | _ => []

/-- The completion that a deed delivers. -/
def delivered (i : Instance) : Deed → List Completion
  | .read => i.read.2.toList
  | _ => []

/-- What a deed enters into the journal. -/
def marks (i : Instance) : Deed → List Mark
  | .read => (replies (i.taken .read)).map .heard ++ if i.reader = .closing then [.looked] else []
  | .write line => if i.inputOpen then [.wrote line] else []
  | .record n => [.recorded n]
  | .withdraw => [.withdrawn]
  | .takeAck => i.acks.head?.toList.map .took
  | .print _ | .closeOutput | .closeInput => []

/-- The journal of a row of deeds. -/
def journal (i : Instance) (deeds : List Deed) : List Mark := observe perform marks i deeds

/-- All that a row of deeds adds to the output. -/
def printout (i : Instance) (deeds : List Deed) : List UInt8 := observe perform printed i deeds

/-- All lines that a row of deeds takes. -/
def takenLines (i : Instance) (deeds : List Deed) : List (List UInt8) :=
  observe perform taken i deeds

/-- All completions that a row of deeds delivers. -/
def deliveries (i : Instance) (deeds : List Deed) : List Completion :=
  observe perform delivered i deeds

/-! ## What the reader does -/

/-- The ways the reader of a process can take a step, each with what it delivers. -/
inductive Reading (i : Instance) : Instance × Option Completion → Prop
  | waits : i.reader = .reading → i.find = .nothing → Reading i (i, none)
  | exhausted : i.reader = .reading → i.find = .over →
      Reading i ({ i with reader := .closing }, none)
  /-- A line that is not UTF-8. -/
  | bad {bytes rest : List UInt8} :
      i.reader = .reading → i.find = .line bytes rest → decodeUtf8? bytes = none →
      Reading i ({ i with output := rest, reader := .closing }, none)
  | answer {bytes rest : List UInt8} {line : List Char} {o : Outcome} :
      i.reader = .reading → i.find = .line bytes rest → decodeUtf8? bytes = some line →
      Reply.read line = .bestMove o →
      Reading i ({ i with
        output := rest, current := none, reader := .delivering ⟨i.current, o⟩ }, none)
  | ack {bytes rest : List UInt8} {line : List Char} {a : Ack} :
      i.reader = .reading → i.find = .line bytes rest → decodeUtf8? bytes = some line →
      Reply.read line = .ack a →
      Reading i ({ i with output := rest, acks := i.acks ++ [a] }, none)
  | other {bytes rest : List UInt8} {line : List Char} :
      i.reader = .reading → i.find = .line bytes rest → decodeUtf8? bytes = some line →
      Reply.read line = .other → Reading i ({ i with output := rest }, none)
  | delivers {c : Completion} :
      i.reader = .delivering c → Reading i ({ i with reader := .reading }, some c)
  | looksAt {n : SearchId} : i.reader = .closing → i.current = some n →
      Reading i ({ i with current := none, reader := .reporting ⟨some n, .engineExited⟩ }, none)
  | looks : i.reader = .closing → i.current = none → Reading i ({ i with reader := .ended }, none)
  | reports {c : Completion} :
      i.reader = .reporting c → Reading i ({ i with reader := .ended }, some c)
  | ended : i.reader = .ended → Reading i (i, none)

theorem reading_read (i : Instance) : Reading i i.read := by
  unfold read
  split
  next hr =>
    split
    next hf => exact .waits hr hf
    next hf => exact .exhausted hr hf
    next bytes rest hf =>
      split
      next line hd =>
        simp only [take]
        split
        next o hread => exact .answer hr hf hd hread
        next a hread => exact .ack hr hf hd hread
        next hread => exact .other hr hf hd hread
      next hd => exact .bad hr hf hd
  next c hr => exact .delivers hr
  next hr =>
    split
    next n hc => exact .looksAt hr hc
    next hc => exact .looks hr hc
  next c hr => exact .reports hr
  next hr => exact .ended hr

theorem model_perform (i : Instance) (d : Deed) : (i.perform d).model = i.model := by
  cases d with
  | read =>
    have h := reading_read i
    simp only [perform]
    generalize i.read = out at h
    cases h <;> rfl
  | print | write =>
    simp only [perform]
    split <;> rfl
  | closeOutput | closeInput | record | withdraw | takeAck => rfl

theorem model_performs (i : Instance) (deeds : List Deed) : (i.performs deeds).model = i.model := by
  induction deeds using List.reverseRecOn with
  | nil => rfl
  | append_singleton deeds d ih => rw [performs_concat, model_perform, ih]

/-- The completion that the reader has still to deliver. -/
def pending (i : Instance) : List Completion :=
  match i.reader with
  | .delivering c | .reporting c => [c]
  | _ => []

end Instance

/-! ## What the journal tells -/

/-- The current search after a mark. -/
def Mark.next (current : Option SearchId) : Mark → Option SearchId
  | .recorded n => some n
  | .withdrawn | .heard (.bestMove _) | .looked => none
  | _ => current

/-- The completion that a mark gives rise to. -/
def Mark.tells (current : Option SearchId) : Mark → List Completion
  | .heard (.bestMove o) => [⟨current, o⟩]
  | .looked => current.toList.map fun n => ⟨some n, .engineExited⟩
  | _ => []

/-- The completions that a journal gives rise to. -/
def completions (current : Option SearchId) (marks : List Mark) : List Completion :=
  observe Mark.next Mark.tells current marks

/-- Whether a mark leaves the current search alone. -/
def Mark.Keeps (a : Mark) : Prop := ∀ current, a.next current = current

/-- A search is current when it was recorded and nothing has touched it since. -/
theorem current_eq_some {marks : List Mark} {n : SearchId} :
    marks.foldl Mark.next none = some n ↔
      ∃ before during, marks = before ++ .recorded n :: during ∧ ∀ a ∈ during, a.Keeps := by
  induction marks using List.reverseRecOn with
  | nil => simp
  | append_singleton marks a ih =>
    rw [List.foldl_append, List.foldl_cons, List.foldl_nil]
    constructor
    · intro h
      by_cases ha : a = .recorded n
      · exact ⟨marks, [], by rw [ha], by simp⟩
      · have hkeeps : a.Keeps ∧ marks.foldl Mark.next none = some n := by
          cases a with
          | heard r => cases r <;> first | exact ⟨fun _ => rfl, h⟩ | cases h
          | recorded m => exact absurd (congrArg Mark.recorded (Option.some.inj h)) ha
          | withdrawn | looked => cases h
          | wrote | took => exact ⟨fun _ => rfl, h⟩
        obtain ⟨before, during, rfl, hduring⟩ := ih.1 hkeeps.2
        refine ⟨before, during ++ [a], by simp, ?_⟩
        intro b hb
        rcases List.mem_append.1 hb with hb | hb
        · exact hduring b hb
        · rw [List.mem_singleton.1 hb]
          exact hkeeps.1
    · rintro ⟨before, during, h, hduring⟩
      rcases concat_eq_append_cons.1 h with ⟨rfl, rfl, -⟩ | ⟨rest, rfl, hmarks⟩
      · rfl
      · rw [ih.2 ⟨before, rest, hmarks, fun b hb => hduring b (by simp [hb])⟩]
        exact hduring a (by simp) _

/-- A completion of a search tells of a reply, or of the look at the end, while it was current. -/
theorem mem_completions {marks : List Mark} {n : SearchId} {o : Outcome}
    (h : ⟨some n, o⟩ ∈ completions none marks) :
    ∃ before during a later,
      marks = before ++ .recorded n :: during ++ a :: later ∧ (∀ b ∈ during, b.Keeps) ∧
      (a = .heard (.bestMove o) ∨ a = .looked ∧ o = .engineExited) := by
  obtain ⟨xs, a, later, rfl, ha⟩ := mem_observe.1 h
  have hcurrent : xs.foldl Mark.next none = some n ∧
      (a = .heard (.bestMove o) ∨ a = .looked ∧ o = .engineExited) := by
    cases a with
    | heard r =>
      cases r with
      | bestMove o' =>
        obtain ⟨hcurrent, rfl⟩ := Completion.mk.inj (List.mem_singleton.1 ha)
        exact ⟨hcurrent.symm, Or.inl rfl⟩
      | ack | other => cases ha
    | looked =>
      obtain ⟨m, hm, heq⟩ := List.mem_map.1 ha
      cases heq
      exact ⟨Option.mem_toList.1 hm, Or.inr ⟨rfl, rfl⟩⟩
    | recorded | withdrawn | wrote | took => cases ha
  obtain ⟨before, during, rfl, hduring⟩ := current_eq_some.1 hcurrent.1
  exact ⟨before, during, a, later, rfl, hduring, hcurrent.2⟩

namespace Instance

variable (i : Instance)

theorem marks_of_line {i : Instance} {bytes rest : List UInt8} {line : List Char}
    (hr : i.reader = .reading) (hf : i.find = .line bytes rest)
    (hd : decodeUtf8? bytes = some line) : i.marks .read = [.heard (Reply.read line)] := by
  simp [marks, taken, hr, hf, replies, hd]

theorem marks_of_closing {i : Instance} (hr : i.reader = .closing) : i.marks .read = [.looked] := by
  simp [marks, taken, hr, replies]

/-- What a step of the reader does to the current search and to what it delivers. -/
theorem read_marks :
    i.read.1.current = (i.marks .read).foldl Mark.next i.current ∧
      i.read.2.toList ++ i.read.1.pending =
        i.pending ++ completions i.current (i.marks .read) := by
  have h := reading_read i
  generalize i.read = out at h
  cases h with
  | waits hr hf | exhausted hr hf => simp [marks, taken, hr, hf, replies, completions, pending]
  | bad hr hf hd => simp [marks, taken, hr, hf, replies, hd, completions, pending]
  | answer hr hf hd hread | ack hr hf hd hread | other hr hf hd hread =>
    rw [marks_of_line hr hf hd, hread]
    simp [Mark.next, Mark.tells, completions, observe, pending, hr]
  | delivers hr | reports hr | ended hr =>
    simp [marks, taken, hr, replies, completions, pending]
  | looksAt hr hc | looks hr hc =>
    rw [marks_of_closing hr]
    simp [Mark.next, Mark.tells, completions, observe, pending, hr, hc]

theorem current_perform (d : Deed) :
    (i.perform d).current = (i.marks d).foldl Mark.next i.current := by
  cases d with
  | read => exact i.read_marks.1
  | print bytes | write line =>
    simp only [perform, marks]
    split <;> rfl
  | takeAck => cases h : i.acks <;> simp [perform, marks, h, Mark.next]
  | closeOutput | closeInput | record n | withdraw => rfl

theorem delivered_perform (d : Deed) :
    i.delivered d ++ (i.perform d).pending = i.pending ++ completions i.current (i.marks d) := by
  cases d with
  | read => exact i.read_marks.2
  | print bytes | write line =>
    simp only [perform, marks]
    split <;> simp [delivered, completions, observe, Mark.tells, pending]
  | takeAck =>
    cases h : i.acks <;>
      simp [perform, marks, h, delivered, completions, observe, Mark.tells, pending]
  | closeOutput | closeInput | record n | withdraw =>
    simp [perform, marks, delivered, completions, observe, Mark.tells, pending]

theorem journal_concat (deeds : List Deed) (d : Deed) :
    i.journal (deeds ++ [d]) = i.journal deeds ++ (i.performs deeds).marks d :=
  observe_concat perform marks i deeds d

theorem deliveries_concat (deeds : List Deed) (d : Deed) :
    i.deliveries (deeds ++ [d]) = i.deliveries deeds ++ (i.performs deeds).delivered d :=
  observe_concat perform delivered i deeds d

theorem printout_concat (deeds : List Deed) (d : Deed) :
    i.printout (deeds ++ [d]) = i.printout deeds ++ (i.performs deeds).printed d :=
  observe_concat perform printed i deeds d

theorem takenLines_concat (deeds : List Deed) (d : Deed) :
    i.takenLines (deeds ++ [d]) = i.takenLines deeds ++ (i.performs deeds).taken d :=
  observe_concat perform taken i deeds d

/-- The journal determines the current search. -/
theorem current_performs (deeds : List Deed) :
    (i.performs deeds).current = (i.journal deeds).foldl Mark.next i.current := by
  induction deeds using List.reverseRecOn with
  | nil => rfl
  | append_singleton deeds d ih =>
    rw [performs_concat, current_perform, journal_concat, List.foldl_append, ih]

/-- All that the reader has delivered and has still to deliver is what the journal tells. -/
theorem delivered_append_pending (deeds : List Deed) :
    i.deliveries deeds ++ (i.performs deeds).pending =
      i.pending ++ completions i.current (i.journal deeds) := by
  induction deeds using List.reverseRecOn with
  | nil => simp [deliveries, journal, completions]
  | append_singleton deeds d ih =>
    have hsplit : completions i.current (i.journal deeds ++ (i.performs deeds).marks d) =
        completions i.current (i.journal deeds) ++
          completions (i.performs deeds).current ((i.performs deeds).marks d) := by
      rw [current_performs]
      exact observe_append ..
    rw [performs_concat, journal_concat, deliveries_concat, hsplit, List.append_assoc,
      delivered_perform, ← List.append_assoc, ih, List.append_assoc]

/-! ## What has been heard -/

/-- How what has been printed, the lines that have been taken, and the process stand to one
another. -/
structure Framed (bytes : List UInt8) (ls : List (List UInt8)) : Prop where
  /-- The lines taken and those still there are the lines printed. -/
  lines : ls ++ lines i.output i.outputOpen = Uci.lines bytes i.outputOpen
  begun : i.outputOpen = true → (cut i.output).2 = (cut bytes).2
  /-- While the reader goes on, all it has taken is UTF-8. -/
  readable : i.reader = .reading ∨ (∃ c, i.reader = .delivering c) → Readable ls

theorem framed_new (model : String) : (new model).Framed [] [] where
  lines := rfl
  begun _ := rfl
  readable _ := fun _ h => by cases h

section Framed

variable {i} {bytes : List UInt8} {ls : List (List UInt8)}

/-- What stands in the frame does not depend on the rest of the process. -/
theorem Framed.of_eq (h : i.Framed bytes ls) {j : Instance} (ho : j.output = i.output)
    (hopen : j.outputOpen = i.outputOpen)
    (hr : j.reader = .reading ∨ (∃ c, j.reader = .delivering c) → Readable ls) :
    j.Framed bytes ls :=
  ⟨by rw [ho, hopen]; exact h.lines, by rw [ho, hopen]; exact h.begun, hr⟩

theorem Framed.take (h : i.Framed bytes ls) {line rest : List UInt8}
    (hf : i.find = .line line rest) {j : Instance} (ho : j.output = rest)
    (hopen : j.outputOpen = i.outputOpen)
    (hr : j.reader = .reading ∨ (∃ c, j.reader = .delivering c) → Readable (ls ++ [line])) :
    j.Framed bytes (ls ++ [line]) := by
  obtain ⟨hlines, hbegun⟩ := lines_of_line hf
  refine ⟨?_, ?_, hr⟩
  · rw [ho, hopen, ← h.lines, hlines, List.append_assoc]
    rfl
  · intro hj
    rw [hopen] at hj
    rw [ho, ← hbegun hj, h.begun hj]

theorem taken_of_line {line rest : List UInt8} (hr : i.reader = .reading)
    (hf : i.find = .line line rest) : i.taken .read = [line] := by
  simp [taken, hr, hf]

theorem Framed.read (h : i.Framed bytes ls) : i.read.1.Framed bytes (ls ++ i.taken .read) := by
  have hread := reading_read i
  generalize i.read = out at hread
  cases hread with
  | waits hr hf =>
    simp only [taken, hr, hf, List.append_nil]
    exact h
  | exhausted hr hf =>
    simp only [taken, hr, hf, List.append_nil]
    exact h.of_eq rfl rfl (by simp)
  | bad hr hf hd =>
    rw [taken_of_line hr hf]
    exact h.take hf rfl rfl (by simp)
  | answer hr hf hd _ | ack hr hf hd _ | other hr hf hd _ =>
    rw [taken_of_line hr hf]
    exact h.take hf rfl rfl fun _ => readable_concat (h.readable (Or.inl hr)) hd
  | delivers hr =>
    simp only [taken, hr, List.append_nil]
    exact h.of_eq rfl rfl fun _ => h.readable (Or.inr ⟨_, hr⟩)
  | looksAt hr _ | looks hr _ | reports hr =>
    simp only [taken, hr, List.append_nil]
    exact h.of_eq rfl rfl (by simp)
  | ended hr =>
    simp only [taken, hr, List.append_nil]
    exact h

theorem Framed.perform (h : i.Framed bytes ls) (d : Deed) :
    (i.perform d).Framed (bytes ++ i.printed d) (ls ++ i.taken d) := by
  cases d with
  | read =>
    rw [show i.printed .read = [] from rfl, List.append_nil]
    exact h.read
  | print more =>
    simp only [Instance.perform, printed, taken, List.append_nil]
    split
    next ho =>
      refine ⟨?_, ?_, h.readable⟩
      · have hlines := h.lines
        simp only [ho] at hlines ⊢
        rw [lines_print, ← List.append_assoc, hlines, h.begun ho, ← lines_print]
      · intro _
        rw [cut_append i.output, cut_append bytes, h.begun ho]
    next =>
      rw [List.append_nil]
      exact h
  | closeOutput =>
    simp only [Instance.perform, printed, taken, List.append_nil]
    refine ⟨?_, fun ho => (by cases ho), h.readable⟩
    cases ho : i.outputOpen with
    | false =>
      have hlines := h.lines
      rwa [ho] at hlines
    | true =>
      have hlines := h.lines
      rw [ho] at hlines
      simp only
      rw [lines_close, ← List.append_assoc, hlines, h.begun ho, ← lines_close]
  | write line =>
    simp only [Instance.perform, printed, taken, List.append_nil]
    split
    · exact h.of_eq rfl rfl h.readable
    · exact h
  | closeInput | record | withdraw | takeAck =>
    simp only [Instance.perform, printed, taken, List.append_nil]
    exact h.of_eq rfl rfl h.readable

end Framed

/-- The lines taken and those still there are the lines printed. -/
theorem framed (model : String) (deeds : List Deed) :
    ((new model).performs deeds).Framed ((new model).printout deeds)
      ((new model).takenLines deeds) := by
  induction deeds using List.reverseRecOn with
  | nil => exact framed_new model
  | append_singleton deeds d ih =>
    rw [performs_concat, printout_concat, takenLines_concat]
    exact ih.perform d

end Instance

/-- The reply that a mark tells of. -/
def Mark.reply? : Mark → Option Reply
  | .heard r => some r
  | _ => none

/-- The replies that have been heard. -/
def heard (marks : List Mark) : List Reply := marks.filterMap Mark.reply?

theorem heard_append (xs ys : List Mark) : heard (xs ++ ys) = heard xs ++ heard ys :=
  List.filterMap_append

namespace Instance

/-- A deed is heard of if it takes a line. -/
theorem heard_marks (i : Instance) (d : Deed) : heard (i.marks d) = replies (i.taken d) := by
  cases d with
  | read =>
    have hlooked : heard (if i.reader = .closing then [.looked] else []) = [] := by
      split <;> rfl
    rw [marks, heard_append, hlooked, List.append_nil, heard, List.filterMap_map]
    exact List.filterMap_some
  | write line =>
    simp only [marks]
    split <;> rfl
  | takeAck => cases h : i.acks <;> simp [marks, h, heard, Mark.reply?, taken, replies]
  | print | closeOutput | closeInput | record | withdraw => rfl

theorem taken_eq_nil {i : Instance} {d : Deed} (h : i.reader ≠ .reading) : i.taken d = [] := by
  cases d with
  | read =>
    cases hr : i.reader with
    | reading => exact absurd hr h
    | delivering | closing | reporting | ended => simp [taken, hr]
  | print | closeOutput | closeInput | write | record | withdraw | takeAck => rfl

/-- What has been heard is what the lines taken say. -/
theorem heard_journal (model : String) (deeds : List Deed) :
    heard ((new model).journal deeds) = replies ((new model).takenLines deeds) := by
  induction deeds using List.reverseRecOn with
  | nil => rfl
  | append_singleton deeds d ih =>
    rw [journal_concat, heard_append, heard_marks, ih, takenLines_concat]
    by_cases hr : ((new model).performs deeds).reader = .reading
    · exact (replies_append ((framed model deeds).readable (Or.inl hr)) _).symm
    · rw [taken_eq_nil hr, List.append_nil]
      exact List.append_nil _

/-- What has been heard is what the engine has printed, from the start and in order. -/
theorem heard_prefix (model : String) (deeds : List Deed) :
    heard ((new model).journal deeds) <+:
      replies (Uci.lines ((new model).printout deeds) ((new model).performs deeds).outputOpen) := by
  rw [heard_journal, ← (framed model deeds).lines]
  exact replies_prefix _ _

end Instance

end Sparring.Uci
