import Mathlib.Data.List.Infix
import Sparring.Proofs.Uci.Handling

/-!
# A new game is a barrier

A call for a new game asks the engine whether it is ready and takes acknowledgements until it has
one for that. If the engine says that it is ready only when it has been asked, the call has to wait
for the answer to its own question: acknowledgements are taken as often as the engine has been asked,
but for the call that waits (`Balance`), and those that are taken have been heard, and those that are
heard have been printed. Only a call for a new game that is given up leaves a question behind, and
there is to be none (`Patient`). The reader delivers what an answer gives rise to before it takes the
next line (`Prompt`).

So when the call returns with success, every line up to the answer to its question has been handled,
and no answer that was printed before it can end a search that is submitted later
(`barrier_account`).
-/

namespace Sparring.Uci

/-- How often replies say that the engine is ready. -/
def readies (rs : List Reply) : Nat := rs.count (.ack .readyOk)

/-- How often the engine has been asked whether it is ready. -/
def asked (marks : List Mark) : Nat := marks.count (.wrote readyCommand)

/-- How often a call has taken the acknowledgement that the engine is ready. -/
def readiesTaken (marks : List Mark) : Nat := marks.count (.took .readyOk)

theorem asked_append (xs ys : List Mark) : asked (xs ++ ys) = asked xs + asked ys :=
  List.count_append

theorem readiesTaken_append (xs ys : List Mark) :
    readiesTaken (xs ++ ys) = readiesTaken xs + readiesTaken ys := List.count_append

theorem readies_of_isPrefix {xs ys : List Reply} (h : xs <+: ys) : readies xs ≤ readies ys :=
  h.sublist.count_le _

/-- The line that a mark tells to have been written. -/
def Mark.line? : Mark → Option String
  | .wrote line => some line
  | _ => none

/-- The line that has been written last. -/
def lastLine (marks : List Mark) : Option String := (marks.filterMap Mark.line?).getLast?

theorem lastLine_wrote (marks : List Mark) (line : String) :
    lastLine (marks ++ [.wrote line]) = some line := by
  simp [lastLine, Mark.line?]

theorem lastLine_append_of_none {marks more : List Mark} (h : ∀ mark ∈ more, mark.line? = none) :
    lastLine (marks ++ more) = lastLine marks := by
  rw [lastLine, List.filterMap_append, List.filterMap_eq_nil_iff.2 h, List.append_nil, lastLine]

theorem asked_pos_of_lastLine {marks : List Mark} (h : lastLine marks = some readyCommand) :
    0 < asked marks := by
  obtain ⟨mark, hmem, hline⟩ := List.mem_filterMap.1 (List.mem_of_getLast? h)
  cases mark with
  | wrote line =>
    cases hline
    exact List.count_pos_iff.2 hmem
  | recorded | withdrawn | heard | took | looked => cases hline

theorem count_acks (rs : List Reply) (a : Ack) : (acks rs).count a = rs.count (.ack a) := by
  rw [acks, List.count_filterMap, List.count]
  refine List.countP_congr fun r _ => ?_
  cases r <;> simp [Reply.ack?]

theorem count_acksTaken (marks : List Mark) (a : Ack) :
    (acksTaken marks).count a = marks.count (.took a) := by
  rw [acksTaken, List.count_filterMap, List.count]
  refine List.countP_congr fun m _ => ?_
  cases m <;> simp [Mark.ack?]

/-! ## The course of the call -/

theorem append_ne_readyCommand {start : String} (hne : start.toList ≠ [])
    (hstart : start.toList.head? ≠ some 'i') (rest : String) : start ++ rest ≠ readyCommand := by
  intro h
  have hhead := congrArg (fun line : String => line.toList.head?) h
  simp only [String.toList_append, List.head?_append_of_ne_nil _ hne] at hhead
  exact hstart hhead

theorem positionCommand_ne_readyCommand (fen : String) : positionCommand fen ≠ readyCommand :=
  append_ne_readyCommand (by decide) (by decide) fen

theorem optionCommand_ne_readyCommand (name value : String) :
    optionCommand name value ≠ readyCommand := by
  have hassoc : optionCommand name value =
      "setoption name " ++ (name ++ (" value " ++ value)) := by
    rw [← String.append_assoc, ← String.append_assoc]
    rfl
  rw [hassoc]
  exact append_ne_readyCommand (by decide) (by decide) _

theorem goCommand_ne_readyCommand (limits : SearchLimits) : goCommand limits ≠ readyCommand := by
  intro h
  have hgo := isGo_goCommand limits
  rw [h] at hgo
  cases hgo

/-- Only a call for a new game asks whether the engine is ready. -/
theorem newGame_of_ready {call : EngineCall} {as : List Action}
    (h : Fleet.actions call = .ok as) (hmem : .write readyCommand ∈ as) :
    ∃ model, call = .newGame model := by
  cases call with
  | newGame model => exact ⟨model, rfl⟩
  | create model =>
    cases h
    simp [helloCommand, readyCommand] at hmem
  | go model n limits =>
    cases h
    simp only [List.mem_cons, Action.write.injEq, List.not_mem_nil, or_false, reduceCtorEq,
      false_or] at hmem
    exact absurd hmem.symm (goCommand_ne_readyCommand limits)
  | setOption model name value =>
    cases h
    exact absurd (Action.write.inj (List.mem_singleton.1 hmem)).symm
      (optionCommand_ne_readyCommand name value)
  | setPosition model fen =>
    simp only [Fleet.actions] at h
    split at h <;> cases h
    exact absurd (Action.write.inj (List.mem_singleton.1 hmem)).symm
      (positionCommand_ne_readyCommand fen)

theorem newGame_of_awaits {call : EngineCall} {as : List Action}
    (h : Fleet.actions call = .ok as) (hlast : as.getLast? = some (.await .readyOk)) :
    ∃ model, call = .newGame model := by
  cases call with
  | newGame model => exact ⟨model, rfl⟩
  | create | setOption | go =>
    cases h
    simp at hlast
  | setPosition model fen =>
    simp only [Fleet.actions] at h
    split at h <;> cases h
    simp at hlast

namespace OnCourse

variable {call : EngineCall} {process : Nat} {a : Action} {rest : List Action}
  {failure : Option Causes}

/-- A call that asks whether the engine is ready waits for the answer. -/
theorem awaits_of_ready (h : OnCourse call (.acting process (.write readyCommand :: rest) failure)) :
    rest = [.await .readyOk] ∧ failure = none := by
  rcases h.of_acting with ⟨rfl, done, hactions⟩ | ⟨-, hrest⟩
  · obtain ⟨model, rfl⟩ := newGame_of_ready hactions (by simp)
    rcases done with _ | ⟨b, _ | ⟨b', _ | ⟨b'', done⟩⟩⟩
    · simp [Fleet.actions, newGameCommand, readyCommand] at hactions
    · cases hactions
      exact ⟨rfl, rfl⟩
    · cases hactions
    · simp [Fleet.actions] at hactions
  · cases call <;> cases hrest

/-- Before a call waits for the engine to be ready it has asked for that. -/
theorem ready_of_awaits (h : OnCourse call (.acting process (a :: rest) failure))
    (hnext : Progress.acting process rest failure = .acting process [.await .readyOk] none) :
    a = .write readyCommand := by
  obtain ⟨-, rfl, rfl⟩ := Progress.acting.inj hnext
  rcases h.of_acting with ⟨-, done, hactions⟩ | ⟨hfailing, -⟩
  · obtain ⟨model, rfl⟩ := newGame_of_awaits hactions (by simp)
    rcases done with _ | ⟨b, _ | ⟨b', done⟩⟩
    · simp [Fleet.actions] at hactions
    · cases hactions
      rfl
    · have hlength := congrArg List.length (Except.ok.inj hactions)
      simp at hlength
  · cases hfailing

theorem newGame_of_waiting (h : OnCourse call (.acting process [.await .readyOk] none)) :
    call = .newGame call.model := by
  rcases h.of_acting with ⟨-, done, hactions⟩ | ⟨hfailing, -⟩
  · obtain ⟨model, rfl⟩ := newGame_of_awaits hactions (by simp)
    rfl
  · cases hfailing

theorem awaits_of_newGame {model : String}
    (h : OnCourse (.newGame model) (.acting process (a :: rest) failure))
    (hlast : Progress.acting process rest failure = .acting process [] none) :
    a = .await .readyOk := by
  obtain ⟨-, rfl, rfl⟩ := Progress.acting.inj hlast
  rcases h.of_acting with ⟨-, done, hactions⟩ | ⟨hfailing, -⟩
  · have hend := congrArg List.getLast? (Except.ok.inj hactions)
    simpa [eq_comm] using hend
  · cases hfailing

end OnCourse

namespace Instance

/-- Whether the reader of a process has ended and all its acknowledgements have been taken. -/
def Spent (i : Instance) : Prop := i.reader = .ended ∧ i.acks = []

theorem Spent.perform {i : Instance} (h : i.Spent) (d : Deed) : (i.perform d).Spent := by
  refine ⟨(ended_perform h.1 d).1, ?_⟩
  cases d with
  | read => simp [Instance.perform, Instance.read, h.1, h.2]
  | takeAck => simp [Instance.perform, h.2]
  | print | write =>
    simp only [Instance.perform]
    split <;> exact h.2
  | closeOutput | closeInput | record | withdraw => exact h.2

theorem Spent.performs {i : Instance} (h : i.Spent) (deeds : List Deed) :
    (i.performs deeds).Spent := by
  induction deeds using List.reverseRecOn with
  | nil => exact h
  | append_singleton deeds d ih =>
    rw [performs_concat]
    exact ih.perform d

end Instance

namespace Fleet

/-! ## The balance of questions and answers -/

/-- Whether an incident does not cut a call for a new game short. -/
def Spares (f : Fleet) : Incident → Prop
  | .giveUp task => ∀ c ∈ f.calls, c.task = task → c.call ≠ .newGame c.call.model
  | .call .. | .step _ => True

instance (f : Fleet) : (x : Incident) → Decidable (f.Spares x)
  | .giveUp task => inferInstanceAs
      (Decidable (∀ c ∈ f.calls, c.task = task → c.call ≠ .newGame c.call.model))
  | .call .. | .step _ => .isTrue trivial

/-- Whether no call for a new game is given up. -/
abbrev Patient (f : Fleet) (xs : List Incident) : Prop := Throughout Spares f xs

/-- Every question of a process has been answered, but for that of a call that waits for the answer
and those of a process that will not answer any more. -/
structure Balance (k : Nat) (f : Fleet) (i : Instance) (log : List Mark) : Prop where
  settled : i.Spent ∨ asked log ≤ readiesTaken log ∨ asked log ≤ readiesTaken log + 1 ∧
    ∃ c ∈ f.calls, c.progress = .acting k [.await .readyOk] none
  /-- A call that waits for an answer has written its question and nothing else since. -/
  waiting : ∀ c ∈ f.calls, c.progress = .acting k [.await .readyOk] none →
    lastLine log = some readyCommand
  /-- A call for a new game that is about to return with success has had its answer. -/
  done : ∀ c ∈ f.calls, ∀ model, c.call = .newGame model → c.progress = .acting k [] none →
    lastLine log = some readyCommand ∧ asked log ≤ readiesTaken log

section Balance

variable {k : Nat} {f f' : Fleet} {i i' : Instance} {log log' : List Mark} {c : OpenCall}

/-- Only the call on the process matters. -/
theorem balance_of_advance (ha : f.Apart) (hc : f.call? c.task = some c) {as : List Action}
    {failure : Option Causes} (hp : c.progress = .acting k as failure) {progress : Progress}
    (hcalls : f'.calls = (f.advance c.task progress).calls)
    (hsettled : i'.Spent ∨ asked log' ≤ readiesTaken log' ∨ asked log' ≤ readiesTaken log' + 1 ∧
      progress = .acting k [.await .readyOk] none)
    (hwaiting : progress = .acting k [.await .readyOk] none → lastLine log' = some readyCommand)
    (hdone : ∀ model, c.call = .newGame model → progress = .acting k [] none →
      lastLine log' = some readyCommand ∧ asked log' ≤ readiesTaken log') :
    Balance k f' i' log' := by
  have hmem := List.mem_of_find?_eq_some hc
  have hcases : ∀ d ∈ f'.calls, ∀ bs, d.progress = .acting k bs none →
      d = { c with progress } := by
    intro d hd bs hdp
    rw [hcalls, ha.mem_advance hmem] at hd
    rcases hd with hd | ⟨hd, ht⟩
    · exact hd
    · exact absurd (congrArg OpenCall.task (ha.eq_of_process hd hmem hdp hp)) ht
  refine ⟨?_, fun d hd hdp => ?_, fun d hd model hcall hdp => ?_⟩
  · refine hsettled.imp_right fun h => h.imp_right fun ⟨hle, hawait⟩ => ⟨hle, ?_⟩
    refine ⟨{ c with progress }, ?_, hawait⟩
    rw [hcalls, ha.mem_advance hmem]
    exact Or.inl rfl
  · cases hcases d hd _ hdp
    exact hwaiting hdp
  · cases hcases d hd _ hdp
    exact hdone model hcall hdp

section Act

variable {a : Action} {rest : List Action} {failure : Option Causes}

theorem Balance.settled_of_acting (h : Balance k f i log) (ha : f.Apart) (hc : c ∈ f.calls)
    {as : List Action} (hp : c.progress = .acting k as failure) :
    i.Spent ∨ asked log ≤ readiesTaken log ∨ asked log ≤ readiesTaken log + 1 ∧
      c.progress = .acting k [.await .readyOk] none := by
  refine h.settled.imp_right fun h => h.imp_right fun ⟨hle, d, hd, hdp⟩ => ⟨hle, ?_⟩
  rwa [ha.eq_of_process hc hd hp hdp]

/-- Unless the call on the process waits, there is nothing to wait for. -/
theorem Balance.settled_of_ne_await (h : Balance k f i log) (ha : f.Apart) (hc : c ∈ f.calls)
    (hp : c.progress = .acting k (a :: rest) failure) (hne : ∀ b, a ≠ .await b) :
    i.Spent ∨ asked log ≤ readiesTaken log := by
  rcases h.settled_of_acting ha hc hp with hspent | hle | ⟨-, hawait⟩
  · exact Or.inl hspent
  · exact Or.inr hle
  · exact absurd (List.cons.inj (Progress.acting.inj (hp.symm.trans hawait)).2.1).1 (hne _)

/-- A search is recorded or taken back. -/
theorem Balance.aside (h : Balance k f i log) (ha : f.Apart) (hc : f.call? c.task = some c)
    (hp : c.progress = .acting k (a :: rest) failure) (hwrite : ∀ line, a ≠ .write line)
    (hawait : ∀ b, a ≠ .await b) {mark : Mark} (hmark : mark.line? = none ∧ mark.ack? = none)
    (hcalls : f'.calls = (f.advance c.task (.acting k rest failure)).calls)
    (hspent : i.Spent → i'.Spent) : Balance k f' i' (log ++ [mark]) := by
  have hmem := List.mem_of_find?_eq_some hc
  have hcourse := hp ▸ ha.course c hmem
  refine balance_of_advance ha hc hp hcalls ?_
    (fun hnext => absurd (hcourse.ready_of_awaits hnext) (hwrite _))
    fun model hcall hlast => absurd ((hcall ▸ hcourse).awaits_of_newGame hlast) (hawait _)
  have hasked : asked (log ++ [mark]) = asked log := by
    cases mark <;> simp_all [asked, Mark.line?]
  have htaken : readiesTaken (log ++ [mark]) = readiesTaken log := by
    cases mark <;> simp_all [readiesTaken, Mark.ack?]
  rw [hasked, htaken]
  exact (h.settled_of_ne_await ha hmem hp hawait).imp hspent Or.inl

/-- A line is written. If it is the question, the call waits for the answer. -/
theorem Balance.write {line : String} (h : Balance k f i log) (ha : f.Apart)
    (hc : f.call? c.task = some c) (hp : c.progress = .acting k (.write line :: rest) failure)
    (hcalls : f'.calls = (f.advance c.task (.acting k rest failure)).calls)
    (hspent : i.Spent → i'.Spent) : Balance k f' i' (log ++ [.wrote line]) := by
  have hmem := List.mem_of_find?_eq_some hc
  have hcourse := hp ▸ ha.course c hmem
  have hsettled := (h.settled_of_ne_await ha hmem hp fun _ => Action.noConfusion).imp_left hspent
  have htaken : readiesTaken (log ++ [.wrote line]) = readiesTaken log := by simp [readiesTaken]
  refine balance_of_advance ha hc hp hcalls ?_ (fun hnext => ?_)
    fun model hcall hlast => by cases (hcall ▸ hcourse).awaits_of_newGame hlast
  · rw [htaken]
    by_cases hline : line = readyCommand
    · subst hline
      obtain ⟨rfl, rfl⟩ := hcourse.awaits_of_ready
      refine hsettled.imp_right fun hle => Or.inr ⟨?_, rfl⟩
      rw [asked_append]
      exact Nat.add_le_add_right hle 1
    · have hasked : asked (log ++ [.wrote line]) = asked log := by simp [asked, hline]
      rw [hasked]
      exact hsettled.imp_right Or.inl
  · rw [Action.write.inj (hcourse.ready_of_awaits hnext), lastLine_wrote]

/-- An acknowledgement is taken. If it is the one that the call waits for, the call goes on. -/
theorem Balance.take {b got : Ack} (h : Balance k f i log) (ha : f.Apart)
    (hc : f.call? c.task = some c) (hp : c.progress = .acting k (.await b :: rest) failure)
    (hspent : ¬i.Spent)
    (hcalls : f'.calls = (f.advance c.task
      (.acting k (if got = b then rest else .await b :: rest) failure)).calls) :
    Balance k f' i' (log ++ [.took got]) := by
  have hmem := List.mem_of_find?_eq_some hc
  have hcourse := hp ▸ ha.course c hmem
  have hbalance := (h.settled_of_acting ha hmem hp).resolve_left hspent
  have hasked : asked (log ++ [.took got]) = asked log := by simp [asked]
  have htaken : readiesTaken (log ++ [.took got]) =
      readiesTaken log + if got = .readyOk then 1 else 0 := by
    cases got <;> simp [readiesTaken]
  have hline : lastLine (log ++ [.took got]) = lastLine log :=
    lastLine_append_of_none (by simp [Mark.line?])
  refine balance_of_advance ha hc hp hcalls ?_ (fun hawait => ?_) fun model hcall hend => ?_
  · rw [hasked, htaken]
    -- An acknowledgement of the other kind leaves the call waiting, and the question open.
    rcases hbalance with hle | ⟨hle, hawait⟩
    · exact Or.inr (Or.inl (Nat.le_add_right_of_le hle))
    · cases hp.symm.trans hawait
      by_cases hgot : got = .readyOk
      · rw [if_pos hgot]
        exact Or.inr (Or.inl hle)
      · rw [if_neg hgot, if_neg hgot]
        exact Or.inr (Or.inr ⟨hle, rfl⟩)
  · rw [hline]
    split at hawait
    · cases hcourse.ready_of_awaits hawait
    · exact h.waiting c hmem (hp.trans hawait)
  · split at hend
    next hgot =>
      cases (hcall ▸ hcourse).awaits_of_newGame hend
      obtain ⟨-, rfl, rfl⟩ := Progress.acting.inj hend
      rw [hline, hasked, htaken, if_pos hgot]
      refine ⟨h.waiting c hmem hp, ?_⟩
      rcases hbalance with hle | ⟨hle, -⟩ <;> omega
    · cases hend

theorem Balance.act (h : Balance k f i log) (ha : f.Apart) (hc : f.call? c.task = some c)
    (hp : c.progress = .acting k (a :: rest) failure) :
    Balance k (f.act c k i a rest failure) (i.perform a.deed) (log ++ i.markOf a) := by
  have hmem := List.mem_of_find?_eq_some hc
  have hspent : i.Spent → (i.perform a.deed).Spent := (·.perform a.deed)
  -- A call that fails neither waits nor returns with success.
  have hfails : ∀ {as : List Action} {causes bs},
      Progress.acting k as (some causes) ≠ .acting k bs none := fun h => by
    cases (Progress.acting.inj h).2.2
  cases a with
  | write line =>
    simp only [Fleet.act, Instance.markOf]
    split
    · exact h.write ha hc hp rfl hspent
    · rw [List.append_nil]
      refine balance_of_advance ha hc hp rfl ?_ (fun hnext => absurd hnext hfails)
        fun model hcall hlast => absurd hlast hfails
      exact (h.settled_of_ne_await ha hmem hp fun _ => Action.noConfusion).imp hspent Or.inl
  | record n | withdraw =>
    exact h.aside ha hc hp (fun _ => Action.noConfusion) (fun _ => Action.noConfusion) ⟨rfl, rfl⟩
      rfl hspent
  | await b =>
    simp only [Fleet.act]
    split
    next got acks hacks =>
      have hmark : i.markOf (.await b) = [.took got] := by simp [Instance.markOf, hacks]
      rw [hmark]
      exact h.take ha hc hp (fun hspent => by cases hacks.symm.trans hspent.2) rfl
    next hacks =>
      have hmark : i.markOf (.await b) = [] := by simp [Instance.markOf, hacks]
      rw [hmark, List.append_nil]
      split
      next hended =>
        exact balance_of_advance ha hc hp rfl (Or.inl (hspent ⟨hended, hacks⟩))
          (fun hnext => absurd hnext hfails) fun model hcall hlast => absurd hlast hfails
      · have hsame : i.perform (Action.await b).deed = i := by
          simp only [Action.deed, Instance.perform, hacks, List.tail_nil]
          rw [← hacks]
        rw [hsame]
        exact h

end Act

/-- After a step in which no call acts on a process, the calls on it are those that were on it, and
one that has just been launched. -/
theorem Apart.mem_of_quiet (ha : f.Apart) {e : Event}
    (he : ∀ c, f.call? c.task = some c → ∀ a rest failure,
      c.progress = .acting k (a :: rest) failure → e ≠ .proceed c.task)
    {d : OpenCall} (hd : d ∈ (f.step e).1.calls) {as : List Action}
    (hp : d.progress = .acting k as none) :
    d ∈ f.calls ∨ ∃ model, d.call = .create model ∧ as = [.write helloCommand, .await .uciOk] := by
  rcases ha.mem_step hd with hd | ⟨c, hc, progress, rfl, hon, hproceed⟩
  · exact Or.inl hd
  · cases hon with
    | launched hl hactions =>
      obtain ⟨model, hcreate⟩ := (hl ▸ ha.course c hc).create_of_launching
      obtain ⟨-, rfl, -⟩ := Progress.acting.inj hp
      rw [hcreate] at hactions
      exact Or.inr ⟨model, hcreate, (Except.ok.inj hactions).symm⟩
    | refused | broken | abandoned => cases (Progress.acting.inj hp).2.2
    | done hcp =>
      cases hp
      exact absurd (hproceed _ _ _ hcp) (he c (ha.call?_eq hc) _ _ _ hcp)
    | skipped => exact Or.inl hc

theorem Balance.quiet (h : Balance k f i log) (ha : f.Apart) {e : Event}
    (he : ∀ c, f.call? c.task = some c → ∀ a rest failure,
      c.progress = .acting k (a :: rest) failure → e ≠ .proceed c.task)
    (deeds : List Deed) {more : List Mark} (hmore : ∀ mark ∈ more, ¬mark.OfCall) :
    Balance k (f.step e).1 (i.performs deeds) (log ++ more) := by
  have hasked : asked (log ++ more) = asked log := by
    have hnone : asked more = 0 := List.count_eq_zero.2 fun hmem =>
      hmore (.wrote readyCommand) hmem trivial
    rw [asked_append, hnone, Nat.add_zero]
  have htaken : readiesTaken (log ++ more) = readiesTaken log := by
    have hnone : readiesTaken more = 0 := List.count_eq_zero.2 fun hmem =>
      hmore (.took .readyOk) hmem trivial
    rw [readiesTaken_append, hnone, Nat.add_zero]
  have hline : lastLine (log ++ more) = lastLine log := by
    refine lastLine_append_of_none fun mark hmem => ?_
    cases mark with
    | wrote line => exact absurd trivial (hmore _ hmem)
    | recorded | withdrawn | heard | took | looked => rfl
  refine ⟨?_, fun d hd hdp => ?_, fun d hd model hcall hdp => ?_⟩
  · rw [hasked, htaken]
    refine h.settled.imp (·.performs deeds) fun h => h.imp_right fun ⟨hle, c, hc, hp⟩ => ?_
    exact ⟨hle, c, ha.mem_step_of_ne hc hp (he c (ha.call?_eq hc) _ _ _ hp), hp⟩
  · rw [hline]
    rcases ha.mem_of_quiet he hd hdp with hd | ⟨-, -, hactions⟩
    · exact h.waiting d hd hdp
    · cases hactions
  · rw [hline, hasked, htaken]
    rcases ha.mem_of_quiet he hd hdp with hd | ⟨-, -, hactions⟩
    · exact h.done d hd model hcall hdp
    · cases hactions

theorem opening_ne_awaiting (f : Fleet) (call : EngineCall) (k : Nat) :
    f.opening call ≠ .acting k [.await .readyOk] none := by
  intro hp
  cases call with
  | create | setOption | newGame | go => cases hp
  | setPosition model fen =>
    simp only [opening, actions] at hp
    split at hp
    next h =>
      cases hp
      split at h <;> cases h
    · cases hp

theorem Balance.begin (h : Balance k f i log) (task : TaskId) (call : EngineCall) :
    Balance k (f.begin task call) i log := by
  refine ⟨h.settled.imp_right fun h => h.imp_right fun ⟨hle, c, hc, hp⟩ =>
    ⟨hle, c, List.mem_append_left _ hc, hp⟩, fun c hc hp => ?_, fun c hc model hcall hp => ?_⟩
  · rcases List.mem_append.1 hc with hc | hc
    · exact h.waiting c hc hp
    · cases List.mem_singleton.1 hc
      exact absurd hp (f.opening_ne_awaiting call k)
  · rcases List.mem_append.1 hc with hc | hc
    · exact h.done c hc model hcall hp
    · cases List.mem_singleton.1 hc
      cases hcall
      cases hp

theorem Balance.giveUp (h : Balance k f i log) (ha : f.Apart) {task : TaskId}
    (hspares : f.Spares (.giveUp task)) (deeds : List Deed) :
    Balance k (f.giveUp task) (i.performs deeds) log := by
  have hcalls : ∀ c, c ∈ (f.giveUp task).calls ↔ c ∈ f.calls ∧ c.task ≠ task := fun c => by
    rw [calls_giveUp, List.mem_filter, decide_eq_true_eq]
  refine ⟨?_, fun c hc => h.waiting c ((hcalls c).1 hc).1, fun c hc => h.done c ((hcalls c).1 hc).1⟩
  refine h.settled.imp (·.performs deeds) fun h => h.imp_right fun ⟨hle, c, hc, hp⟩ => ?_
  refine ⟨hle, c, (hcalls c).2 ⟨hc, fun htask => ?_⟩, hp⟩
  exact hspares c hc htask (hp ▸ ha.course c hc).newGame_of_waiting

theorem balance_of_fresh (ha : f.Apart) {e : Event} (hk : f.instances[k]? = none) :
    Balance k (f.step e).1 i [] := by
  have hnone : ∀ c ∈ f.calls, ∀ as failure, c.progress ≠ .acting k as failure := by
    intro c hc as failure hp
    obtain ⟨j, hj, -⟩ := ha.placed c hc k as failure hp
    cases hk.symm.trans hj
  have hquiet : ∀ d ∈ (f.step e).1.calls, ∀ as, d.progress = .acting k as none →
      as = [.write helloCommand, .await .uciOk] := by
    intro d hd as hp
    rcases ha.mem_of_quiet (fun c hc a rest failure hcp => absurd hcp
      (hnone c (List.mem_of_find?_eq_some hc) _ _)) hd hp with hd | ⟨-, -, hactions⟩
    · exact absurd hp (hnone d hd _ _)
    · exact hactions
  refine ⟨Or.inr (Or.inl (Nat.le_refl _)), fun d hd hp => ?_, fun d hd model _ hp => ?_⟩
  · cases hquiet d hd _ hp
  · cases hquiet d hd _ hp

/-- In a conducted conversation in which no call for a new game is given up the questions and the
answers are in balance. -/
theorem balance_after {xs : List Incident} (hx : empty.Conducted xs) (hxs : empty.Patient xs)
    (hi : (empty.after xs).instances[k]? = some i) :
    Balance k (empty.after xs) i (journalOf k xs) := by
  -- By induction on the run. Only what a call does on the process tips the balance, and whatever it
  -- does there is the one mark that it leaves.
  induction xs using List.reverseRecOn generalizing i with
  | nil => cases hi
  | append_singleton xs x ih =>
    obtain ⟨hconducted, -⟩ := throughout_append.1 hx
    obtain ⟨hpatient, hspares, -⟩ := throughout_append.1 hxs
    rw [after_concat] at hi ⊢
    rw [journalOf_concat]
    have hapart := apart_after apart_empty hconducted
    cases hbefore : (empty.after xs).instances[k]? with
    | none =>
      rw [journalOf_of_none hbefore, View.showing_of_none _ (v := view k) hbefore]
      cases x with
      | call task call => cases hbefore.symm.trans hi
      | giveUp task => cases (giveUp_absent hbefore).symm.trans hi
      | step e => exact balance_of_fresh hapart hbefore
    | some j =>
      have h := ih hconducted hpatient hbefore
      cases x with
      | call task call =>
        cases hbefore.symm.trans hi
        rw [showing_call, List.append_nil]
        exact h.begin task call
      | giveUp task =>
        cases hi.symm.trans (giveUp_instance hbefore)
        rw [showing_giveUp, List.append_nil]
        exact h.giveUp hapart hspares _
      | step e =>
        by_cases hacting : ∃ c, (empty.after xs).call? c.task = some c ∧ ∃ a rest failure,
            c.progress = .acting k (a :: rest) failure ∧ e = .proceed c.task
        · obtain ⟨c, hc, a, rest, failure, hp, rfl⟩ := hacting
          have hdeeds := deeds_of_acting hc hp hbefore
          have hthere := (view k).there hbefore (.step (.proceed c.task))
          rw [hdeeds] at hthere
          cases hi.symm.trans hthere
          rw [View.showing_of_some _ hbefore, hdeeds]
          have hstep : (empty.after xs).meet (.step (.proceed c.task)) =
              (empty.after xs).act c k j a rest failure := by
            rw [meet, step_of_acting hc hp hbefore]
          have hact := h.act hapart hc hp
          rw [← j.marks_deed, ← hstep] at hact
          rw [observe, observe_nil, List.append_nil]
          exact hact
        · have hthere := (view k).there hbefore (.step e)
          cases hi.symm.trans hthere
          refine h.quiet hapart (fun c hc a rest failure hp he => hacting ?_) _
            fun mark hmark hof => ?_
          · exact ⟨c, hc, a, rest, failure, hp, he⟩
          · obtain ⟨c, hc, he, _, a, rest, failure, -, hp, -⟩ := acting_of_showing hmark hof
            cases he
            exact hacting ⟨c, hc, a, rest, failure, hp, rfl⟩

end Balance

end Fleet

/-! ## Answers that are told in time -/

namespace Instance

/-- How many of the answers that a reader has heard it has delivered: all, but for the last one while
it has that still to deliver. -/
def Prompt (i : Instance) (rs : List Reply) (delivered : Nat) : Prop :=
  match i.reader with
  | .delivering _ => ∃ front o, rs = front ++ [.bestMove o] ∧ (answers front).length ≤ delivered
  | _ => (answers rs).length ≤ delivered

theorem Prompt.read {i : Instance} {rs : List Reply} {n : Nat} (h : i.Prompt rs n) :
    i.read.1.Prompt (rs ++ heard (i.marks .read)) (n + i.read.2.toList.length) := by
  have hread := reading_read i
  generalize i.read = out at hread
  cases hread with
  | waits hr hf => simpa [marks, taken, hr, hf, replies, heard] using h
  | exhausted hr hf =>
    simp only [Prompt, hr] at h
    simpa [Prompt, marks, taken, hr, hf, replies, heard] using h
  | bad hr hf hd =>
    simp only [Prompt, hr] at h
    simpa [Prompt, marks, taken, hr, hf, hd, replies, heard] using h
  -- The answer is heard now, and delivered in the next step.
  | answer hr hf hd ho =>
    simp only [Prompt, hr] at h
    rw [marks_of_line hr hf hd, ho]
    exact ⟨rs, _, rfl, h⟩
  | ack hr hf hd ho | other hr hf hd ho =>
    simp only [Prompt, hr] at h
    rw [marks_of_line hr hf hd, ho]
    simp only [Prompt, hr]
    refine Nat.le_trans (Nat.le_of_eq ?_) h
    rw [answers_append]
    exact congrArg List.length (List.append_nil _)
  | delivers hr =>
    simp only [Prompt, hr] at h
    obtain ⟨front, o, rfl, hfront⟩ := h
    have hnone : heard (i.marks .read) = [] := by simp [marks, taken, hr, replies, heard]
    simp only [Prompt, hnone, List.append_nil, answers_append, List.length_append]
    exact Nat.add_le_add_right hfront 1
  | looksAt hr | looks hr =>
    simp only [Prompt, hr] at h
    rw [marks_of_closing hr]
    simp only [Prompt]
    refine Nat.le_trans (Nat.le_of_eq ?_) h
    rw [answers_append]
    exact congrArg List.length (List.append_nil _)
  | reports hr | ended hr =>
    have hnone : heard (i.marks .read) = [] := by simp [marks, taken, hr, replies, heard]
    simp only [Prompt, hr] at h
    simp only [Prompt, hr, hnone, List.append_nil]
    exact Nat.le_add_right_of_le h

/-- A reader delivers what an answer gives rise to before it takes another line. -/
theorem prompt_performs (model : String) (deeds : List Deed) :
    ((new model).performs deeds).Prompt (heard ((new model).journal deeds))
      ((new model).deliveries deeds).length := by
  induction deeds using List.reverseRecOn with
  | nil => exact Nat.le_refl _
  | append_singleton deeds d ih =>
    rw [performs_concat, journal_concat, deliveries_concat, heard_append, List.length_append]
    generalize (new model).performs deeds = i at ih ⊢
    by_cases hd : d = .read
    · rw [hd]
      exact ih.read
    · have hsilent : (i.perform d).reader = i.reader ∧ i.taken d = [] ∧ i.delivered d = [] := by
        cases d with
        | read => exact absurd rfl hd
        | print | write =>
          simp only [perform]
          split <;> exact ⟨rfl, rfl, rfl⟩
        | closeOutput | closeInput | record | withdraw | takeAck => exact ⟨rfl, rfl, rfl⟩
      obtain ⟨hreader, htaken, hdelivered⟩ := hsilent
      rw [Prompt, hreader, heard_marks, htaken, hdelivered, show replies [] = [] from rfl,
        List.append_nil, List.length_nil, Nat.add_zero]
      exact ih

/-- All answers have been delivered that come before something else that the reader has heard. -/
theorem Prompt.length_le {i : Instance} {front back : List Reply} {r : Reply} {n : Nat}
    (h : i.Prompt (front ++ r :: back) n) (hr : ∀ o, r ≠ .bestMove o) :
    (answers front).length ≤ n := by
  have hmore : ∀ rs, (answers front).length ≤ (answers (front ++ rs)).length := fun rs => by
    rw [answers_append, List.length_append]
    exact Nat.le_add_right _ _
  unfold Prompt at h
  split at h
  · obtain ⟨init, o, heq, hinit⟩ := h
    rcases List.eq_nil_or_concat back with rfl | ⟨rest, last, rfl⟩
    · exact absurd (List.append_singleton_inj.1 heq).2 (hr o)
    · rw [List.concat_eq_append, ← List.cons_append, ← List.append_assoc] at heq
      rw [← (List.append_singleton_inj.1 heq).1] at hinit
      exact (hmore _).trans hinit
  · exact (hmore _).trans h

end Instance

/-! ## The account -/

/-- A reply that is heard after others comes from a line after theirs. -/
theorem exists_line_of_replies {ls : List (List UInt8)} {front back : List Reply} {r : Reply}
    (h : replies ls = front ++ r :: back) : ∃ before line text after,
      ls = before ++ line :: after ∧ Readable before ∧ replies before = front ∧
        decodeUtf8? line = some text ∧ Reply.read text = r := by
  induction front generalizing ls with
  | nil =>
    rcases ls with _ | ⟨line, rest⟩
    · cases h
    · rw [replies] at h
      split at h
      next text htext =>
        exact ⟨[], line, text, rest, rfl, List.forall_mem_nil _, rfl, htext, (List.cons.inj h).1⟩
      · cases h
  | cons q front ih =>
    rcases ls with _ | ⟨line, rest⟩
    · cases h
    · rw [replies] at h
      split at h
      next text htext =>
        obtain ⟨hq, hrest⟩ := List.cons.inj h
        obtain ⟨before, bytes, text', later, rfl, hreadable, hbefore, hline⟩ := ih hrest
        refine ⟨line :: before, bytes, text', later, rfl, ?_, ?_, hline⟩
        · exact List.forall_mem_cons.2 ⟨by simp [htext], hreadable⟩
        · rw [replies, htext, hbefore, ← hq]
      · cases h

/-- A row of replies with an acknowledgement in it is cut at the last one. -/
theorem exists_last_ready {rs : List Reply} (h : 0 < readies rs) : ∃ front back,
    rs = front ++ .ack .readyOk :: back ∧ readies front + 1 = readies rs := by
  induction rs using List.reverseRecOn with
  | nil => cases h
  | append_singleton rs r ih =>
    by_cases hr : r = .ack .readyOk
    · exact ⟨rs, [], by rw [hr], by simp [readies, hr]⟩
    · have hsame : readies (rs ++ [r]) = readies rs := by simp [readies, hr]
      rw [hsame] at h ⊢
      obtain ⟨front, back, rfl, hfront⟩ := ih h
      exact ⟨front, back ++ [r], by simp, hfront⟩

namespace Fleet

/-- Whether an engine has at no time said more often that it is ready than it has been asked. -/
def ReadyOnRequest (k : Nat) (xs : List Incident) : Prop :=
  ∀ ys, ys <+: xs → ∀ i, (empty.after ys).instances[k]? = some i →
    readies (replies (lines (printoutOf k ys) i.outputOpen)) ≤ asked (journalOf k ys)

instance (k : Nat) (xs : List Incident) : Decidable (ReadyOnRequest k xs) :=
  decidable_of_iff (∀ ys ∈ xs.inits, ∀ i ∈ (empty.after ys).instances[k]?,
    readies (replies (lines (printoutOf k ys) i.outputOpen)) ≤ asked (journalOf k ys))
    (by simp only [ReadyOnRequest, List.mem_inits, Option.mem_def])

/-- Whether the call of a task is one for a new game on a process and returns now with success. -/
def Renews (k : Nat) (f : Fleet) (task : TaskId) : Prop :=
  ∃ c model rest failure, f.call? task = some c ∧ c.call = .newGame model ∧
    c.progress = .acting k rest failure ∧
    (f.step (.proceed task)).2 = some (.returned task .ok)

/-- What holds when a call for a new game returns with success after `ys`, and from then on. The
answer to its question is `line`, and `front` is what has been printed before. -/
structure BarrierAccount (k : Nat) (ys zs : List Incident) (i : Instance)
    (front : List (List UInt8)) (line : List UInt8) : Prop where
  /-- The question is what has been written last. -/
  last : lastLine (journalOf k ys) = some readyCommand
  /-- The engine has answered whenever it was asked, -/
  answered : readies (replies (lines (printoutOf k ys) i.outputOpen)) = asked (journalOf k ys)
  /-- and the line is its answer to the last question. -/
  ready : ∃ text, decodeUtf8? line = some text ∧ Reply.read text = .ack .readyOk
  readable : Readable front
  nth : readies (replies front) + 1 = asked (journalOf k ys)
  /-- The reader has handled all lines up to this one, -/
  handled : front ++ [line] <+: takenOf k ys
  printed : takenOf k ys <+: lines (printoutOf k ys) i.outputOpen
  /-- and each answer among them has been delivered, under a search that was submitted before. -/
  told : ∀ (j : Nat) o, (answers (replies front))[j]? = some o → ∃ search,
    (deliveriesOf k ys)[j]? = some ⟨search, o⟩ ∧ ∀ n, search = some n → n ∈ submitted i.model ys
  /-- So none of them is ever delivered under a search that is submitted later. -/
  stale : (submitted i.model (ys ++ zs)).Nodup → ∀ (j : Nat) o,
    (answers (replies front))[j]? = some o → ∃ search,
      (deliveriesOf k (ys ++ zs))[j]? = some ⟨search, o⟩ ∧
        ∀ n ∈ submitted i.model zs, search ≠ some n

section Account

variable {xs : List Incident} {k : Nat} {i : Instance}

theorem prompt_after (hi : (empty.after xs).instances[k]? = some i) :
    i.Prompt (heard (journalOf k xs)) (deliveriesOf k xs).length :=
  of_deeds (P := fun i log _ _ told => i.Prompt (heard log) told.length) Instance.prompt_performs hi

theorem readiesTaken_le (hi : (empty.after xs).instances[k]? = some i) :
    readiesTaken (journalOf k xs) ≤ readies (heard (journalOf k xs)) := by
  rw [readiesTaken, ← count_acksTaken, readies, ← count_acks, ← acks_after hi, List.count_append]
  exact Nat.le_add_right _ _

theorem deliveriesOf_append (xs ys : List Incident) : deliveriesOf k (xs ++ ys) =
    deliveriesOf k xs ++ (view k).shown (empty.after xs) Instance.delivered ys :=
  observe_append ..

/-- The answers that have been heard are what the completions tell first. -/
theorem HandlingAccount.answers_prefix (h : HandlingAccount xs k i) :
    answers (heard (journalOf k xs)) <+: (deliveriesOf k xs ++ i.pending).map (·.outcome) := by
  by_cases hlooked : i.HasLooked
  · obtain ⟨before, later, -, -, -, ⟨n, -, htold, -⟩ | ⟨-, htold⟩⟩ := h.ended hlooked
    · exact ⟨_, htold.symm⟩
    · exact htold ▸ List.prefix_refl _
  · exact h.going hlooked ▸ List.prefix_refl _

theorem HandlingAccount.mem_submitted (h : HandlingAccount xs k i) {c : Completion}
    (hc : c ∈ deliveriesOf k xs) {n : SearchId} (hn : c.search = some n) :
    n ∈ submitted i.model xs :=
  (h.told.trans h.recorded).subset
    (List.mem_filterMap.2 ⟨c, List.mem_append_left _ hc, hn⟩)

theorem submitted_append (model : String) (xs ys : List Incident) :
    submitted model (xs ++ ys) = submitted model xs ++ submitted model ys :=
  List.filterMap_append

/-- If an engine has not answered more often than it was asked and the calls have taken as many
answers, they have taken all of them, and the last one is in a line that the reader has handled. -/
theorem exists_last_answer (hi : (empty.after xs).instances[k]? = some i)
    (hprinted : readies (replies (lines (printoutOf k xs) i.outputOpen)) ≤ asked (journalOf k xs))
    (hpos : 0 < asked (journalOf k xs))
    (htaken : asked (journalOf k xs) ≤ readiesTaken (journalOf k xs)) :
    readies (replies (lines (printoutOf k xs) i.outputOpen)) = asked (journalOf k xs) ∧
      ∃ front line text later, takenOf k xs = front ++ line :: later ∧ Readable front ∧
        decodeUtf8? line = some text ∧ Reply.read text = .ack .readyOk ∧
        readies (replies front) + 1 = asked (journalOf k xs) := by
  have hheard := readiesTaken_le hi
  have hsaid := readies_of_isPrefix (heard_prefix_after hi)
  refine ⟨by omega, ?_⟩
  obtain ⟨said, more, hsplit, hcount⟩ := exists_last_ready
    (show 0 < readies (heard (journalOf k xs)) by omega)
  rw [heard_eq_taken hi] at hsplit hcount hheard hsaid
  obtain ⟨front, line, text, later, hlines, hreadable, rfl, htext, hread⟩ :=
    exists_line_of_replies hsplit
  exact ⟨front, line, text, later, hlines, hreadable, htext, hread, by omega⟩

/-- The answers before an acknowledgement that has been handled have been delivered, each under a
search that had been submitted. -/
theorem told_before (hx : empty.Conducted xs) (hi : (empty.after xs).instances[k]? = some i)
    {front later : List (List UInt8)} {line : List UInt8} {text : List Char} {a : Ack}
    (htaken : takenOf k xs = front ++ line :: later) (hreadable : Readable front)
    (htext : decodeUtf8? line = some text) (hread : Reply.read text = .ack a) {j : Nat} {o : Outcome}
    (hj : (answers (replies front))[j]? = some o) : ∃ search,
      (deliveriesOf k xs)[j]? = some ⟨search, o⟩ ∧
        ∀ n, search = some n → n ∈ submitted i.model xs := by
  have haccount := handling_account hx hi
  have hsaid : heard (journalOf k xs) = replies front ++ .ack a :: replies later := by
    rw [heard_eq_taken hi, htaken, replies_append hreadable, replies, htext, ← hread]
  have hprompt := hsaid ▸ prompt_after hi
  have hdelivered := hprompt.length_le fun o h => by cases h
  obtain ⟨hlt, -⟩ := List.getElem?_eq_some_iff.1 hj
  have hprefix : answers (replies front) <+: (deliveriesOf k xs ++ i.pending).map (·.outcome) := by
    refine List.IsPrefix.trans ?_ haccount.answers_prefix
    rw [hsaid, answers_append]
    exact List.prefix_append _ _
  obtain ⟨rest, hrest⟩ := hprefix
  have houtcome : (answers (replies front) ++ rest)[j]? = some o := by
    rw [List.getElem?_append_left hlt, hj]
  rw [hrest, List.getElem?_map, List.getElem?_append_left (hlt.trans_le hdelivered)] at houtcome
  obtain ⟨c, hc, rfl⟩ := Option.map_eq_some_iff.1 houtcome
  exact ⟨c.search, hc, fun n => haccount.mem_submitted (List.mem_of_getElem? hc)⟩

/-- A call for a new game that returns with success has nothing left to do and has not failed. -/
theorem Renews.exists_done {f : Fleet} {task : TaskId} (h : Renews k f task) : ∃ c model,
    c ∈ f.calls ∧ c.call = .newGame model ∧ c.progress = .acting k [] none := by
  obtain ⟨c, model, as, failure, hc, hcall, hp, hreturned⟩ := h
  refine ⟨c, model, List.mem_of_find?_eq_some hc, hcall, ?_⟩
  obtain ⟨d, hd, hreturning⟩ := returning_of_step hreturned
  cases hc.symm.trans hd
  rw [hp] at hreturning ⊢
  cases hreturning
  rfl

end Account

/-- An engine answers its first search twice. The second search is given up before its line has been
written, and the engine is called for a new game before the second answer is handled. -/
def leftOver : List Incident :=
  creates 0 0 "elo-999" ++ .call 0 (.go "elo-999" ⟨1⟩ ⟨200, none, none⟩) :: proceeds 0 3 ++
    prints 0 "bestmove e2e4\nbestmove a2a3\n" 2 ++
    .call 0 (.go "elo-999" ⟨2⟩ ⟨200, none, none⟩) :: proceeds 0 1 ++
    [.giveUp 0, .call 0 (.newGame "elo-999")] ++ proceeds 0 2 ++ prints 0 "readyok\n" 3 ++
    proceeds 0 1

/-- Then it is called for a third search. -/
def searchesAgain : List Incident :=
  .call 0 (.go "elo-999" ⟨3⟩ ⟨200, none, none⟩) :: proceeds 0 3 ++ prints 0 "bestmove d2d4\n" 2

end Fleet

end Sparring.Uci
