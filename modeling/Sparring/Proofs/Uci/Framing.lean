import Sparring.Config.Decoding
import Sparring.Proofs.Text.LineBreaks
import Sparring.Proofs.Uci.Commands

/-!
# One line for each command

Commands are written to a process a line each, and whatever text a command carries, the process
should read it as one line. `framing_account` says how far this goes. A position with a line break
is refused, and numbers have none; so the process reads exactly the commands that have been sent to
it, unless the weights file of its model has a line break and has been sent. Names of models and
the directory of the weights are taken from the configuration as they are, and then what comes
after the line break is read as a command of its own (`model_name_read_as_command`).
-/

namespace Sparring.Uci

/-! ## Commands and line breaks -/

theorem not_hasLineBreak_limitWords {name : String} (hname : ¬HasLineBreak name)
    (limit : Option Nat) : ∀ w ∈ limitWords name limit, ¬HasLineBreak w := by
  cases limit with
  | none => exact fun w hw => by cases hw
  | some n =>
    intro w hw
    simp only [limitWords, List.mem_cons, List.not_mem_nil, or_false] at hw
    rcases hw with rfl | rfl
    · exact hname
    · exact not_hasLineBreak_toString n

theorem not_hasLineBreak_goCommand (limits : SearchLimits) : ¬HasLineBreak (goCommand limits) := by
  refine not_hasLineBreak_intercalate fun w hw => ?_
  rw [List.mem_append, List.mem_append] at hw
  rcases hw with (hw | hw) | hw
  · simp only [List.mem_cons, List.not_mem_nil, or_false] at hw
    rcases hw with rfl | rfl | rfl
    · decide
    · decide
    · exact not_hasLineBreak_toString _
  · exact not_hasLineBreak_limitWords (by decide) _ w hw
  · exact not_hasLineBreak_limitWords (by decide) _ w hw

theorem hasLineBreak_optionCommand {name value : String} (hname : ¬HasLineBreak name) :
    HasLineBreak (optionCommand name value) ↔ HasLineBreak value := by
  have hset : ¬HasLineBreak "setoption name " := by decide
  have hvalue : ¬HasLineBreak " value " := by decide
  simp only [optionCommand, hasLineBreak_append, hset, hname, hvalue, false_or]

/-- The only command that can have a line break is the option for the weights file. -/
theorem eq_of_hasLineBreak {settings : EngineSettings} {c : EngineCall} (hfits : c.Fits settings)
    {line : String} (hline : line ∈ commands c) (hbreak : HasLineBreak line) :
    line = optionCommand "WeightsFile" (settings.weightsFile c.model) ∧
      HasLineBreak (settings.weightsFile c.model) := by
  -- Command by command: fixed words and numbers have no line break, and a position is refused.
  cases c with
  | create model =>
    cases List.mem_singleton.1 hline
    exact absurd hbreak (by decide)
  | setOption model name value =>
    cases List.mem_singleton.1 hline
    obtain ⟨p, rfl, hoption⟩ := hfits
    simp only [EngineSettings.options, List.mem_cons, List.not_mem_nil, or_false,
      Prod.mk.injEq] at hoption
    rcases hoption with ⟨rfl, rfl⟩ | ⟨rfl, rfl⟩ | ⟨rfl, rfl⟩
    · exact ⟨rfl, (hasLineBreak_optionCommand (by decide)).1 hbreak⟩
    · exact absurd ((hasLineBreak_optionCommand (by decide)).1 hbreak)
        (not_hasLineBreak_toText p.temperature)
    · exact absurd ((hasLineBreak_optionCommand (by decide)).1 hbreak)
        (not_hasLineBreak_toString _)
  | newGame model =>
    simp only [commands, List.mem_cons, List.not_mem_nil, or_false] at hline
    rcases hline with rfl | rfl <;> exact absurd hbreak (by decide)
  | setPosition model fen =>
    simp only [commands] at hline
    split at hline
    · cases hline
    next hfen =>
      cases List.mem_singleton.1 hline
      rcases hasLineBreak_append.1 hbreak with hbreak | hbreak
      · exact absurd hbreak (by decide)
      · exact absurd hbreak hfen
  | go model n limits =>
    cases List.mem_singleton.1 hline
    exact absurd hbreak (not_hasLineBreak_goCommand limits)

/-! ## What a process reads -/

/-- The lines that a process reads, if it takes either kind of line break for the end of a line. -/
def Instance.linesRead (i : Instance) : List (List Char) :=
  ((i.written.flatMap String.toList).splitOnP isLineBreak).dropLast

/-- The lines that a text is cut into. -/
def linesIn (line : String) : List (List Char) := line.toList.splitOnP isLineBreak

theorem linesIn_of_not_hasLineBreak {line : String} (h : ¬HasLineBreak line) :
    linesIn line = [line.toList] := by
  refine List.splitOnP_eq_singleton fun c hc => ?_
  by_contra hbreak
  exact h (List.any_eq_true.2 ⟨c, hc, by simpa using hbreak⟩)

theorem one_lt_length_linesIn {line : String} (h : HasLineBreak line) :
    1 < (linesIn line).length := by
  obtain ⟨c, hc, hbreak⟩ := List.any_eq_true.1 h
  obtain ⟨before, later, hsplit⟩ := List.append_of_mem hc
  rw [linesIn, hsplit, List.splitOnP_append_cons before later hbreak, List.length_append]
  have hbefore := List.length_pos_of_ne_nil (List.splitOnP_ne_nil isLineBreak before)
  have hlater := List.length_pos_of_ne_nil (List.splitOnP_ne_nil isLineBreak later)
  omega

theorem length_le_length_linesIn (sent : List String) :
    sent.length ≤ (sent.flatMap linesIn).length := by
  induction sent with
  | nil => exact Nat.le_refl _
  | cons line sent ih =>
    have hline : 0 < (linesIn line).length := List.length_pos_of_ne_nil (List.splitOnP_ne_nil _ _)
    rw [List.flatMap_cons, List.length_append, List.length_cons]
    omega

/-- Each line is read as it is exactly if none of them has a line break. -/
theorem flatMap_linesIn_iff (sent : List String) :
    sent.flatMap linesIn = sent.map String.toList ↔ ∀ line ∈ sent, ¬HasLineBreak line := by
  induction sent with
  | nil => simp
  | cons line sent ih =>
    rw [List.flatMap_cons, List.map_cons, List.forall_mem_cons, ← ih]
    constructor
    · intro h
      have hline : ¬HasLineBreak line := by
        intro hbreak
        have hlength := congrArg List.length h
        rw [List.length_append, List.length_cons, List.length_map] at hlength
        have hone := one_lt_length_linesIn hbreak
        have hrest := length_le_length_linesIn sent
        omega
      rw [linesIn_of_not_hasLineBreak hline] at h
      exact ⟨hline, List.tail_eq_of_cons_eq h⟩
    · rintro ⟨hline, hrest⟩
      rw [linesIn_of_not_hasLineBreak hline, hrest]
      rfl

theorem splitOnP_of_lines (sent : List String) :
    ((sent.map (· ++ "\n")).flatMap String.toList).splitOnP isLineBreak =
      sent.flatMap linesIn ++ [[]] := by
  induction sent with
  | nil => rfl
  | cons line sent ih =>
    have htext : ((line :: sent).map (· ++ "\n")).flatMap String.toList =
        line.toList ++ '\n' :: (sent.map (· ++ "\n")).flatMap String.toList := by
      simp
    rw [htext, List.splitOnP_append_cons _ _ (by decide), ih, List.flatMap_cons, List.append_assoc]
    rfl

/-- A process that has been sent some lines reads the lines that each of them is cut into. -/
theorem linesRead_of_written {i : Instance} {sent : List String}
    (h : i.written = sent.map (· ++ "\n")) : i.linesRead = sent.flatMap linesIn := by
  rw [Instance.linesRead, h, splitOnP_of_lines, List.dropLast_concat]

/-! ## Positions that are refused -/

/-- The result of a request for a position with a line break. -/
def refusal : JobResult := .move (.error (.engine ["position contains a line break"]))

/-- Whether a task is about to be told that its position has a line break. -/
def Refuses (s : System Fleet) (id : TaskId) : Prop :=
  ∃ c ∈ s.engines.calls, c.task = id ∧ (∃ model fen, c.call = .setPosition model fen) ∧
    ∃ k, c.progress = .acting k [] (some ["position contains a line break"])

section Refusals

variable {s : System Fleet} {e : Occurrence} {id : TaskId} {fen : String} {difficulty : Double}

theorem Served.calls_eq (hs : Served s) {c : OpenCall} (hc : c ∈ s.engines.calls) :
    s.engines.calls = [c] ∧
      ∃ stage, s.service.stage? c.task = some stage ∧ stage.call? = some c.call := by
  cases hs with
  | idle hnone _ =>
    rw [hnone] at hc
    cases hc
  | busy hone hid hcall _ =>
    rw [hone] at hc
    cases List.mem_singleton.1 hc
    exact ⟨hone, _, hid, hcall⟩

theorem mem_calls_of_engineStep {c : OpenCall} (h : c ∈ (s.engineStep e).1.calls) :
    c ∈ (s.step e).engines.calls := by
  have htake : ∀ effect, c ∈ (System.takeUp (s.engineStep e).1 effect).calls := by
    rintro (_ | _ | _)
    · exact h
    · exact List.mem_append_left _ h
    · exact h
  rw [System.step_eq]
  split
  · exact h
  · exact htake _

/-- A call for a position with a line break is refused from the start. -/
theorem refuses_of_effect {model text : String} (hbreak : HasLineBreak text)
    (h : .call id (.setPosition model text) ∈ s.effect e) : Refuses (s.step e) id := by
  obtain ⟨e', hseen, heffect⟩ := List.mem_flatMap.1 h
  rw [Option.mem_toList] at hseen heffect
  have hengines : (s.step e).engines =
      (s.engineStep e).1.begin id (.setPosition model text) := by
    rw [System.step_eq, show s.relay e = some e' from hseen]
    simp only [show (s.service.step e').2 = _ from heffect]
    rfl
  refine ⟨⟨id, _, _⟩, by rw [hengines]; exact List.mem_append_right _ (List.mem_singleton_self _),
    rfl, ⟨model, text, rfl⟩, ?_⟩
  refine ⟨((s.engineStep e).1.newest? model).getD (s.engineStep e).1.instances.length, ?_⟩
  simp only [Fleet.opening, Fleet.actions, EngineCall.model,
    if_pos (show text.toList.any isLineBreak = true from hbreak)]

/-- When its call goes on, the request has failed. -/
theorem Refuses.proceed (h : Refuses s id) (hs : Served s) (ha : s.service.aborted = false)
    (hjob : s.service.job? id = some (.move fen difficulty)) :
    (s.step (.engine (.proceed id))).service.result? id = some refusal := by
  obtain ⟨c, hc, rfl, ⟨model, text, hcall⟩, k, hp⟩ := h
  obtain ⟨hone, stage, hstage, hstagecall⟩ := hs.calls_eq hc
  obtain ⟨t, ht, htstage⟩ := Option.map_eq_some_iff.1 hstage
  have htjob : t.job = .move fen difficulty :=
    Option.some.inj ((Service.job?_of_task ht).symm.trans hjob)
  obtain ⟨p, rfl⟩ : ∃ p, stage = .positioning p text := by
    rw [hcall] at hstagecall
    cases stage with
    | positioning p text' =>
      cases hstagecall
      exact ⟨p, rfl⟩
    | setup p rest su => cases su <;> cases hstagecall
    | waiting | startingGame | submitting | thinking | finished => cases hstagecall
  -- The call fails without a word to the process.
  have hseen : s.relay (.engine (.proceed c.task)) =
      some (.returned c.task (.failed ["position contains a line break"])) := by
    have hstep : (s.engines.step (.proceed c.task)).2 =
        some (.returned c.task (.failed ["position contains a line break"])) := by
      simp only [Fleet.step, Fleet.call?_of_calls hone, Fleet.proceed, hp, Fleet.finish]
    simp only [System.relay, engineStep_of_going ha, hstep]
    rfl
  rw [System.service_of_seen hseen, Service.step_returned ha ht, htjob, htstage]
  refine Service.result?_eq_some.2 ?_
  show (Service.move c.task _).1.stage? c.task = _
  rw [Service.stage?_move, if_pos ⟨rfl, Service.not_fatal_to _ _⟩]
  exact congrArg (Option.map _) hstage

theorem Refuses.step (h : Refuses s id) (hs : Served s) (ha : s.service.aborted = false)
    (hjob : s.service.job? id = some (.move fen difficulty)) (e : Occurrence) :
    Refuses (s.step e) id ∨ (s.step e).service.result? id = some refusal := by
  by_cases he : e = .engine (.proceed id)
  · subst he
    exact Or.inr (h.proceed hs ha hjob)
  · refine Or.inl ?_
    obtain ⟨c, hc, rfl, hcall, k, hp⟩ := h
    have hone := (hs.calls_eq hc).1
    have hengines : (s.engineStep e).1.calls = [c] := by
      cases e with
      | start | run | hangUp => exact hone
      | engine e =>
        rw [engineStep_of_going ha]
        exact Fleet.calls_step_of_ne hone (by rw [hp]; exact Progress.noConfusion)
          fun heq => he (congrArg _ heq)
    refine ⟨c, mem_calls_of_engineStep (by rw [hengines]; exact List.mem_singleton_self c), rfl,
      hcall, k, hp⟩

end Refusals

section Runs

variable {settings : EngineSettings} {table : Table} {policy : FailurePolicy}
  {es : List Occurrence} {id : TaskId} {fen : String} {difficulty : Double}

theorem job?_of_effects {c : EngineCall}
    (h : .call id c ∈ (start settings table policy).effects es) {job : Job} {e : Occurrence}
    (hjob : (((start settings table policy).after es).step e).service.job? id = some job) :
    ((start settings table policy).after es).service.job? id = some job := by
  obtain ⟨xs, e', ys, hsplit, hcall⟩ := System.exists_of_mem_effects h
  obtain ⟨stage, hstage, -⟩ := Service.stage?_of_call hcall
  obtain ⟨t, ht, -⟩ := Option.map_eq_some_iff.1 hstage
  have hthere : ((start settings table policy).after es).service.job? id = some t.job := by
    have hrun : xs ++ e' :: ys = (xs ++ [e']) ++ ys := by simp
    rw [System.service_after, hsplit, hrun, Service.after_append, Service.after_concat]
    exact Service.job?_after (Service.job?_of_task ht) ys
  rw [System.service_step, Service.job?_after hthere] at hjob
  rwa [hthere]

/-- A request whose position has a line break has failed, or is about to. -/
theorem refused_after {model text : String} (hbreak : HasLineBreak text)
    (hcall : .call id (.setPosition model text) ∈ (start settings table policy).effects es)
    (hjob : ((start settings table policy).after es).service.job? id =
      some (.move fen difficulty))
    (ha : ((start settings table policy).after es).service.aborted = false) :
    ((start settings table policy).after es).service.result? id = some refusal ∨
      Refuses ((start settings table policy).after es) id := by
  induction es using List.reverseRecOn with
  | nil => cases hcall
  | append_singleton es e ih =>
    have hgo := System.going_of_append ha
    rw [System.effects_concat, List.mem_append] at hcall
    rw [System.after_concat]
    rcases hcall with hcall | hcall
    · rw [System.after_concat] at hjob
      have hjob' := job?_of_effects hcall hjob
      rcases ih hcall hjob' hgo with hfailed | hrefuses
      · refine Or.inl ?_
        rw [System.service_step]
        exact Service.result?_after hfailed _
      · exact (hrefuses.step (served_after hgo) hgo hjob' e).symm
    · exact Or.inr (refuses_of_effect hbreak hcall)

end Runs

/-! ## The account -/

/-- What has been sent to a process in a run, and what it reads. -/
structure Framing (s : System Fleet) (es : List Occurrence) (k : Nat) (i : Instance)
    (sent : List String) : Prop where
  /-- Each line that has been sent is written with a line feed. -/
  written : i.written = sent.map (· ++ "\n")
  /-- They are the commands of the calls that have come to the process, from the start and in
  order. -/
  isPrefix : sent <+: (callsOf s k es).flatMap (commands ·.2)
  /-- While the process takes its input, all are there but those that the call under way has still
  to write. -/
  complete : i.inputOpen = true →
    sent ++ (s.after es).engines.unwritten k = (callsOf s k es).flatMap (commands ·.2)
  /-- The calls are for the model of the process, and tasks have made them. -/
  calls : ∀ id c, (id, c) ∈ callsOf s k es → c.model = i.model ∧ .call id c ∈ s.effects es ∧
    c.Fits s.service.settings
  /-- Those of a request have their texts from its position and its profile. -/
  requests : ∀ id c fen difficulty, (id, c) ∈ callsOf s k es →
    (s.after es).service.job? id = some (.move fen difficulty) →
    c ∈ Service.setupCalls s.service.settings (s.service.table.resolve difficulty) ∨
      ∃ n, c ∈ Service.searchCalls (s.service.table.resolve difficulty) fen n
  /-- The process reads one line for each that has been sent, unless the weights file of its model
  is among them and has a line break. -/
  framed : i.linesRead = sent.map String.toList ↔
    ¬(optionCommand "WeightsFile" (s.service.settings.weightsFile i.model) ∈ sent ∧
      HasLineBreak (s.service.settings.weightsFile i.model))

/-- What a run says about the lines that processes read. -/
structure FramingAccount (s : System Fleet) (es : List Occurrence) : Prop where
  process : ∀ k i, (s.after es).engines.instances[k]? = some i → ∃ sent, Framing s es k i sent
  /-- A position with a line break is not written, and its request fails as soon as its call goes
  on. -/
  refused : ∀ id model text fen difficulty, HasLineBreak text →
    .call id (.setPosition model text) ∈ s.effects es →
    (s.after es).service.job? id = some (.move fen difficulty) →
    (s.after es).service.aborted = false →
    commands (.setPosition model text) = [] ∧
      ((s.after es).service.result? id = some refusal ∨
        ((s.after es).step (.engine (.proceed id))).service.result? id = some refusal)

/-- Processes read the commands that they have been sent, a line each, unless the weights file of
their model has a line break. -/
theorem framing_account (settings : EngineSettings) (table : Table) (policy : FailurePolicy)
    (es : List Occurrence) : FramingAccount (start settings table policy) es := by
  refine ⟨fun k i hi => ?_, ?_⟩
  · obtain ⟨sent, hsent⟩ := sent_after settings table policy hi
    refine ⟨sent, hsent.written, hsent.isPrefix, hsent.complete, fun id c hc => ?_,
      fun id c fen difficulty hc hjob => mem_block_of_callsOf hc hjob, ?_⟩
    · exact ⟨hsent.model _ hc, mem_effects_of_callsOf hc, fits_of_callsOf hc⟩
    · rw [linesRead_of_written hsent.written, flatMap_linesIn_iff]
      constructor
      · rintro hnone ⟨hmem, hbreak⟩
        exact hnone _ hmem ((hasLineBreak_optionCommand (by decide)).2 hbreak)
      · intro hweights line hline hbreak
        obtain ⟨⟨id, c⟩, hc, hcommand⟩ := List.mem_flatMap.1 (hsent.isPrefix.subset hline)
        obtain ⟨heq, hfile⟩ := eq_of_hasLineBreak (fits_of_callsOf hc) hcommand hbreak
        rw [hsent.model _ hc] at heq hfile
        exact hweights ⟨heq ▸ hline, hfile⟩
  · intro id model text fen difficulty hbreak hcall hjob ha
    refine ⟨if_pos hbreak, ?_⟩
    rcases refused_after hbreak hcall hjob ha with hfailed | hrefuses
    · exact Or.inl hfailed
    · exact Or.inr (hrefuses.proceed (served_after ha) ha hjob)

/-- A configuration with a line break in the name of a model. -/
def twoLineModel : String :=
  "[[buckets]]\nmax_difficulty = 1.0\ntime_budget_ms = 200\ntemperature = 0.5\n" ++
    "model_id = \"m\\nquit\"\n"

/-- A request has an engine launched and set up. -/
def settingUp : List Occurrence := [.start (bareKings 2 5), .run 0] ++ opens 0 0

/-- The configuration is accepted, and an engine that is set up for the model reads a command to
quit, though no call to it has one. -/
theorem model_name_read_as_command :
    ∃ c, Config.read twoLineModel = .ok c ∧
      (∃ i, ((start c.engine c.table c.policy).after settingUp).engines.instances[0]? = some i ∧
        "quit".toList ∈ i.linesRead) ∧
      "quit" ∉ (callsOf (start c.engine c.table c.policy) 0 settingUp).flatMap (commands ·.2) := by
  have hread : ((Config.read twoLineModel).toOption.any fun c =>
      (((start c.engine c.table c.policy).after settingUp).engines.instances[0]?).any
          (fun i => decide ("quit".toList ∈ i.linesRead)) &&
        decide ("quit" ∉ (callsOf (start c.engine c.table c.policy) 0 settingUp).flatMap
          (commands ·.2))) = true := by
    decide +kernel
  generalize Config.read twoLineModel = decoded at hread ⊢
  cases decoded with
  | error e => cases hread
  | ok c =>
    rw [Except.toOption, Option.any_some, Bool.and_eq_true_iff, Option.any_eq_true] at hread
    obtain ⟨⟨i, hi, hmem⟩, hnone⟩ := hread
    exact ⟨c, rfl, ⟨i, hi, of_decide_eq_true hmem⟩, of_decide_eq_true hnone⟩

end Sparring.Uci
