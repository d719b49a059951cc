import Sparring.Proofs.Service.Blocks
import Sparring.Proofs.Service.Course

/-!
# Tracing a request back

What a request shows can be traced back to what the service has done for it before.

* A stage comes from the gate, from the answer to a call, or it is the end (`Reached`).
* A call comes from the stage of its task, and a request is only ever at stages that belong to its
  own profile and position (`Within`), so its calls are those of its block (`call_mem_of_within`).
* A search comes from its arming (`hasArmed_of_search`).
* A move, or the word that there is none, comes from the first completion after the arming
  (`move_iff_decidedBy`, `noLegalMove_iff_decidedBy`).
-/

namespace Sparring.Service

/-! ## Where a stage comes from -/

/-- Where the stage of a task after an event comes from. -/
inductive Reached (s : Service) (e : Event) (id : TaskId) : Stage → Prop
  /-- It was there. -/
  | stayed {stage : Stage} : s.stage? id = some stage → Reached s e id stage
  /-- The task has arrived. -/
  | arrived : Reached s e id .waiting
  /-- The task has passed the gate. -/
  | entered {t : Task} : s.tasks[id]? = some t → t.stage = .waiting → s.aborted = false →
    Reached s e id (s.firstStage t.job)
  /-- A call of the task has come back. -/
  | answered {t : Task} {r : CallResult} {turn : Turn} : e = .returned id r →
    s.tasks[id]? = some t → s.aborted = false → s.answer t.job t.stage r = some turn →
    Reached s e id turn.stage
  /-- The task has found a reply. -/
  | told {p : Profile} {n : SearchId} {r : Except ServiceError Move} :
    s.stage? id = some (.thinking p n) → Reached s e id (.finished (.move r))

theorem stage?_of_moveIfAny {s : Service} {id j : TaskId} {turn? : Option Turn} {stage : Stage}
    (htasks : ∀ turn, turn? = some turn → ∀ i, turn.service.stage? i = s.stage? i)
    (h : (s.moveIfAny j turn?).1.stage? id = some stage) :
    s.stage? id = some stage ∨ id = j ∧ ∃ turn, turn? = some turn ∧ turn.stage = stage := by
  cases turn? with
  | none => exact Or.inl h
  | some turn =>
    rw [moveIfAny, stage?_move] at h
    split at h
    next hj =>
      obtain ⟨_, -, hstage⟩ := Option.map_eq_some_iff.1 h
      exact Or.inr ⟨hj.1, turn, rfl, hstage⟩
    next => exact Or.inl ((htasks turn rfl id).symm.trans h)

theorem reached_run {s : Service} (ha : s.aborted = false) {id j : TaskId} {t : Task}
    (ht : s.tasks[j]? = some t) {stage : Stage}
    (h : (s.step (.run j)).1.stage? id = some stage) : Reached s (.run j) id stage := by
  obtain ⟨job, old⟩ := t
  rw [step_run ha ht] at h
  cases old with
  | waiting =>
    cases hp : (s.gate.poll (.task j)).1 with
    | false =>
      rw [← step_run ha ht, step_of_refused ha ht rfl hp] at h
      exact .stayed h
    | true =>
      rw [← step_run ha ht, step_of_letIn ha ht rfl hp, stage?_move] at h
      split at h
      next hj =>
        obtain ⟨_, -, rfl⟩ := Option.map_eq_some_iff.1 h
        exact .entered (hj.1 ▸ ht) rfl ha
      next => exact .stayed h
  | thinking p n =>
    have hlook : ∀ turn, s.look p n = some turn → Passage s job (.thinking p n) none turn :=
      fun turn hturn => passage_look hturn
    rcases stage?_of_moveIfAny (fun turn hturn => (hlook turn hturn).stage?_eq) h with
      h | ⟨rfl, turn, hturn, rfl⟩
    · exact .stayed h
    · cases hlook turn hturn
      exact .told (stage?_of_task ht)
  | setup | startingGame | positioning | submitting | finished => exact .stayed h

/-- The stage of a task after a step comes from one of these. -/
theorem reached_step {s : Service} {e : Event} {id : TaskId} {stage : Stage}
    (h : (s.step e).1.stage? id = some stage) : Reached s e id stage := by
  cases ha : s.aborted with
  | true =>
    rw [step_of_aborted ha] at h
    exact .stayed h
  | false =>
    have hgo : ¬s.aborted = true := by simp [ha]
    cases e with
    | start job =>
      rw [step, if_neg hgo, stage?_arrive] at h
      split at h
      · cases h
        exact .arrived
      · exact .stayed h
    | run j =>
      cases ht : s.tasks[j]? with
      | none =>
        rw [(step_of_absent ha ht).1] at h
        exact .stayed h
      | some t => exact reached_run ha ht h
    | returned j r =>
      cases ht : s.tasks[j]? with
      | none =>
        rw [(step_of_absent ha ht).2] at h
        exact .stayed h
      | some t =>
        rw [step_returned ha ht] at h
        rcases stage?_of_moveIfAny (fun turn hturn => (passage_answer hturn).stage?_eq) h with
          h | ⟨rfl, turn, hturn, rfl⟩
        · exact .stayed h
        · exact .answered rfl ht ha hturn
    | completed c =>
      have hsame : (s.step (.completed c)).1.tasks = s.tasks := by
        rw [step, if_neg hgo]
        simp only [complete]
        split
        · rfl
        · split <;> rfl
      rw [stage?, hsame] at h
      exact .stayed h
    | hangUp j =>
      rw [step, if_neg hgo] at h
      exact .stayed h

/-! ## Where a call comes from -/

/-- A call that a task makes is outstanding at the stage it comes to. -/
theorem stage?_of_call {s : Service} {e : Event} {id : TaskId} {c : EngineCall}
    (h : (s.step e).2 = some (.call id c)) :
    ∃ stage, (s.step e).1.stage? id = some stage ∧ stage.call? = some c := by
  have hmove : ∀ {j : TaskId} {turn : Turn} {old : Stage}, turn.service.stage? j = some old →
      (move j turn).2 = some (.call id c) →
      ∃ stage, (move j turn).1.stage? id = some stage ∧ stage.call? = some c := by
    intro j turn old hold hcall
    have hf : ¬turn.Fatal := by
      intro hf
      rw [move_of_fatal hf] at hcall
      cases hcall
    refine ⟨turn.stage, ?_, call?_of_effect hcall⟩
    rw [move_of_not_fatal hf] at hcall
    obtain ⟨_, -, heq⟩ := Option.map_eq_some_iff.1 hcall
    cases heq
    rw [stage?_move, if_pos ⟨rfl, hf⟩, hold]
    rfl
  cases ha : s.aborted with
  | true =>
    rw [step_of_aborted ha] at h
    cases h
  | false =>
    have hc := change_step ha e
    generalize s.step e = out at hc h
    cases hc with
    | idle | arrived | queued => cases h
    | completed c' =>
      split at h <;> cases h
    | entered ht => exact hmove (stage?_of_task ht) h
    | passed he ht hpass => exact hmove ((hpass.stage?_eq _).trans (stage?_of_task ht)) h

end Service

/-- Whether a setup goes through the options of a profile, in order. -/
def Setup.Covers (settings : EngineSettings) (p : Profile) : Setup → Prop
  | creating => True
  | configuring accepted current remaining =>
    accepted ++ current :: remaining = settings.options p

namespace Service

theorem covers_of_configure {settings : EngineSettings} {p : Profile}
    {accepted remaining : List EngineOption} (h : accepted ++ remaining = settings.options p) :
    (∀ setup, Setup.configure p.model accepted remaining = .more setup →
        setup.Covers settings p) ∧
      ∀ entry, Setup.configure p.model accepted remaining = .ready entry →
        entry = ⟨p.model, settings.options p⟩ := by
  cases remaining with
  | nil =>
    refine ⟨fun setup hmore => (by cases hmore), fun entry hready => ?_⟩
    cases hready
    rw [← h, List.append_nil]
  | cons current remaining =>
    refine ⟨fun setup hmore => ?_, fun entry hready => (by cases hready)⟩
    cases hmore
    exact h

/-- A setup keeps to the options, and in the end the engine has accepted all of them. -/
theorem covers_of_next {settings : EngineSettings} {p : Profile} {setup : Setup}
    (h : setup.Covers settings p) :
    (∀ setup', setup.next settings p = .more setup' → setup'.Covers settings p) ∧
      ∀ entry, setup.next settings p = .ready entry → entry = ⟨p.model, settings.options p⟩ := by
  cases setup with
  | creating => exact covers_of_configure (List.nil_append _)
  | configuring accepted current remaining =>
    refine covers_of_configure ?_
    rw [List.append_assoc, List.singleton_append]
    exact h

theorem call_mem_of_covers {settings : EngineSettings} {p : Profile} {setup : Setup}
    (h : setup.Covers settings p) : setup.call p.model ∈ setupCalls settings p := by
  cases setup with
  | creating => exact List.mem_cons_self
  | configuring accepted current remaining =>
    have hmem : current ∈ settings.options p := by
      rw [← show accepted ++ current :: remaining = settings.options p from h]
      exact List.mem_append_right _ List.mem_cons_self
    have hset := List.mem_map_of_mem (f := fun o : EngineOption =>
      EngineCall.setOption p.model o.1 o.2) hmem
    exact List.mem_cons_of_mem _ hset

/-- Whether a stage belongs to a request with a profile and a position. -/
inductive Within (settings : EngineSettings) (p : Profile) (fen : String) : Stage → Prop
  | waiting : Within settings p fen .waiting
  | setup {setup : Setup} : setup.Covers settings p → Within settings p fen (.setup p [] setup)
  | startingGame : Within settings p fen (.startingGame p [])
  | positioning : Within settings p fen (.positioning p fen)
  | submitting (n : SearchId) : Within settings p fen (.submitting p n)
  | thinking (n : SearchId) : Within settings p fen (.thinking p n)
  | finished (r : Except ServiceError Move) : Within settings p fen (.finished (.move r))

/-- The calls that a request makes are those of its block. -/
theorem Within.call_mem {settings : EngineSettings} {p : Profile} {fen : String} {stage : Stage}
    (h : Within settings p fen stage) {c : EngineCall} (hc : stage.call? = some c) :
    c ∈ setupCalls settings p ∨ ∃ n, c ∈ searchCalls p fen n := by
  cases h with
  | setup hcovers =>
    cases hc
    exact Or.inl (call_mem_of_covers hcovers)
  | startingGame =>
    cases hc
    exact Or.inr ⟨⟨0⟩, List.mem_cons_self⟩
  | positioning =>
    cases hc
    exact Or.inr ⟨⟨0⟩, List.mem_cons_of_mem _ List.mem_cons_self⟩
  | submitting n =>
    cases hc
    exact Or.inr ⟨n, by simp [searchCalls]⟩
  | waiting | thinking | finished => cases hc

section Within

variable {s : Service} {fen : String} {difficulty : Double} {p : Profile}

theorem within_firstStage (s : Service) (fen : String) (difficulty : Double) :
    Within s.settings (s.table.resolve difficulty) fen (s.firstStage (.move fen difficulty)) := by
  show Within _ _ _ (s.seek (.move fen difficulty) (s.table.resolve difficulty) [])
  unfold seek
  split
  · exact .startingGame
  · exact .setup trivial

theorem within_arm : Within s.settings p fen (s.arm p).stage := by
  unfold arm
  split
  next n _ _ => exact .submitting n
  next => exact .finished _

theorem Within.succeed {stage : Stage} (h : Within s.settings p fen stage) {turn : Turn}
    (hturn : s.succeed (.move fen difficulty) stage = some turn) :
    Within s.settings p fen turn.stage := by
  cases h with
  | setup hcovers =>
    simp only [Service.succeed] at hturn
    split at hturn <;> cases hturn
    next hnext => exact .setup ((covers_of_next hcovers).1 _ hnext)
    next => exact .startingGame
  | startingGame =>
    cases hturn
    exact .positioning
  | positioning =>
    cases hturn
    exact within_arm
  | submitting n =>
    cases hturn
    exact .thinking n
  | waiting | thinking | finished => cases hturn

theorem Within.answer {stage : Stage} (h : Within s.settings p fen stage) {r : CallResult}
    {turn : Turn} (hturn : s.answer (.move fen difficulty) stage r = some turn) :
    Within s.settings p fen turn.stage := by
  cases r with
  | ok => exact h.succeed hturn
  | failed | crashed =>
    obtain ⟨c, -, rfl⟩ := Option.map_eq_some_iff.1 hturn
    cases stage <;> exact .finished _

end Within

theorem settings_of_terms {s s' : Service} (h : s'.terms = s.terms) :
    s'.settings = s.settings ∧ s'.table = s.table :=
  ⟨congrArg (·.1) h, congrArg (·.2.1) h⟩

theorem job?_of_append {s : Service} {xs ys : List Event} {id : TaskId} {stage : Stage}
    {job : Job} (hid : (s.after xs).stage? id = some stage)
    (h : (s.after (xs ++ ys)).job? id = some job) : (s.after xs).job? id = some job := by
  obtain ⟨t, ht, -⟩ := Option.map_eq_some_iff.1 hid
  have hlater := job?_after (job?_of_task ht) ys
  rw [← after_append, h] at hlater
  rw [job?_of_task ht, Option.some.inj hlater]

theorem within_after {s : Service} {es : List Event} {id : TaskId} {stage : Stage} {fen : String}
    {difficulty : Double} (hnew : s.stage? id = none)
    (hjob : (s.after es).job? id = some (.move fen difficulty))
    (h : (s.after es).stage? id = some stage) :
    Within s.settings (s.table.resolve difficulty) fen stage := by
  -- A stage that the request has come to was reached from an earlier one of its own.
  induction es using List.reverseRecOn generalizing stage with
  | nil => cases hnew.symm.trans h
  | append_singleton es e ih =>
    obtain ⟨hsettings, htable⟩ := settings_of_terms (terms_after s es)
    have hearlier : ∀ {old : Stage}, (s.after es).stage? id = some old →
        Within s.settings (s.table.resolve difficulty) fen old := fun hold =>
      ih (job?_of_append hold hjob) hold
    have hmove : ∀ {t : Task}, (s.after es).tasks[id]? = some t → t.job = .move fen difficulty := by
      intro t ht
      have hback := job?_of_append (stage?_of_task ht) hjob
      exact Option.some.inj ((job?_of_task ht).symm.trans hback)
    rw [after_concat] at h
    cases reached_step h with
    | stayed hold => exact hearlier hold
    | arrived => exact .waiting
    | entered ht =>
      have hfirst := within_firstStage (s.after es) fen difficulty
      rw [hsettings, htable] at hfirst
      rwa [hmove ht]
    | answered _ ht _ hturn =>
      have hold := hearlier (stage?_of_task ht)
      rw [hmove ht] at hturn
      rw [← hsettings] at hold ⊢
      exact hold.answer hturn
    | told => exact .finished _

theorem call_mem_of_within {s : Service} {es later : List Event} {e : Event} {id : TaskId}
    {c : EngineCall} {fen : String} {difficulty : Double} (hnew : s.stage? id = none)
    (hjob : (s.after (es ++ e :: later)).job? id = some (.move fen difficulty))
    (h : ((s.after es).step e).2 = some (.call id c)) :
    c ∈ setupCalls s.settings (s.table.resolve difficulty) ∨
      ∃ n, c ∈ searchCalls (s.table.resolve difficulty) fen n := by
  obtain ⟨stage, hstage, hc⟩ := stage?_of_call h
  rw [← after_concat] at hstage
  have hsplit : es ++ e :: later = (es ++ [e]) ++ later := by simp
  rw [hsplit] at hjob
  exact (within_after hnew (job?_of_append hstage hjob) hstage).call_mem hc

/-- A request ends with a move or an error, and with nothing else. -/
theorem exists_move_of_result {s : Service} {es : List Event} {id : TaskId} {r : JobResult}
    {fen : String} {difficulty : Double} (hnew : s.stage? id = none)
    (hjob : (s.after es).job? id = some (.move fen difficulty))
    (h : (s.after es).result? id = some r) : ∃ result, r = .move result := by
  cases within_after hnew hjob (result?_eq_some.1 h)
  exact ⟨_, rfl⟩

/-! ## Where a search comes from -/

/-- Whether a request has armed `n` for the engine of a profile in the course of a run, and which
events have come since. -/
def HasArmed (s : Service) (es : List Event) (id : TaskId) (p : Profile) (n : SearchId)
    (since : List Event) : Prop :=
  ∃ before, es = before ++ .returned id .ok :: since ∧ (s.after before).Arms id p n

theorem HasArmed.append {s : Service} {es : List Event} {id : TaskId} {p : Profile} {n : SearchId}
    {since : List Event} (h : s.HasArmed es id p n since) (more : List Event) :
    s.HasArmed (es ++ more) id p n (since ++ more) := by
  obtain ⟨before, rfl, harms⟩ := h
  exact ⟨before, by simp, harms⟩

theorem hasArmed_of_search {s : Service} {es : List Event} {id : TaskId} {stage : Stage}
    {p : Profile} {n : SearchId} {fen : String} {difficulty : Double} (hnew : s.stage? id = none)
    (hjob : (s.after es).job? id = some (.move fen difficulty))
    (hid : (s.after es).stage? id = some stage)
    (hstage : stage = .submitting p n ∨ stage = .thinking p n) :
    ∃ since, s.HasArmed es id p n since := by
  -- Back to the step in which the request came by its search: it armed the slot there.
  induction es using List.reverseRecOn generalizing stage with
  | nil => cases hnew.symm.trans hid
  | append_singleton es e ih =>
    have hearlier : ∀ {old : Stage}, (s.after es).stage? id = some old →
        old = .submitting p n ∨ old = .thinking p n →
        ∃ since, s.HasArmed (es ++ [e]) id p n since := by
      intro old hold hsearch
      obtain ⟨since, h⟩ := ih (job?_of_append hold hjob) hold hsearch
      exact ⟨_, h.append [e]⟩
    rw [after_concat] at hid
    rcases stage?_step hid with hold | hplain | ⟨ha, job, old, r, turn, rfl, hold, hpass, hturn⟩
    · exact hearlier hold hstage
    · rcases hstage with rfl | rfl <;> exact hplain.elim
    · rcases hstage with rfl | rfl
      · cases hpass with
        | armed hempty =>
          cases hturn
          obtain ⟨t, ht, htstage⟩ := Option.map_eq_some_iff.1 hold
          have hmove := (job?_of_task ht).symm.trans (job?_of_append hold hjob)
          exact ⟨[], es, rfl, ha, ⟨t, fen, difficulty, _, ht, Option.some.inj hmove, htstage⟩,
            hempty, rfl⟩
        | plain registry hin hno hplain =>
          simp only [Turn.to] at hturn
          rw [hturn] at hplain
          exact hplain.elim
        | refused | submitted | withdrawn | crashed | told => cases hturn
      · exact hearlier ((hpass.of_thinking hturn).1 ▸ hold) (Or.inl rfl)

/-! ## Where a result comes from -/

/-- Whether a request has armed `n`, its submission has succeeded, and a completion was the first to
come since the arming. -/
def DecidedBy (s : Service) (es : List Event) (id : TaskId) (p : Profile) (n : SearchId)
    (c : Completion) : Prop :=
  ∃ since, s.HasArmed es id p n since ∧ firstReturn id since = some .ok ∧
    firstCompletion since = some c

section Results

variable {settings : EngineSettings} {table : Table} {policy : FailurePolicy} {es : List Event}
  {id : TaskId}

/-- The completion that decides is what the result says. -/
theorem result_of_decidedBy {p : Profile} {n : SearchId} {c : Completion}
    (h : (new settings table policy).DecidedBy es id p n c)
    (ha : ((new settings table policy).after es).aborted = false) {r : JobResult}
    (hr : ((new settings table policy).after es).result? id = some r) :
    r = .move (verdict p.model n c) := by
  obtain ⟨since, ⟨before, rfl, harms⟩, hok, hc⟩ := h
  rw [result?_eq_some] at hr
  cases harms.follows_after ha with
  | thinking _ _ hs => cases hr.symm.trans hs.stage_eq
  | told _ _ hfirst hfin =>
    cases hc.symm.trans hfirst
    cases hr.symm.trans hfin
    rfl
  | submitting hret | failed hret | crashed hret => cases hok.symm.trans hret

/-- A request whose fate is decided has its result as soon as it has had its turn. -/
theorem result_of_told {p : Profile} {n : SearchId} {since : List Event}
    (h : (new settings table policy).HasArmed es id p n since)
    (ha : ((new settings table policy).after es).aborted = false) (htold : Told id since) :
    ∃ r, ((new settings table policy).after es).result? id = some (.move r) := by
  obtain ⟨before, rfl, harms⟩ := h
  have hok := htold.known.1
  cases harms.follows_after ha with
  | thinking _ hno => exact absurd htold hno
  | told _ _ _ hfin => exact ⟨_, result?_eq_some.2 hfin⟩
  | submitting hret | failed hret | crashed hret => cases hok.symm.trans hret

/-- A result that takes a reply has been decided by a completion. -/
theorem decidedBy_of_result {fen : String} {difficulty : Double}
    (hjob : ((new settings table policy).after es).job? id = some (.move fen difficulty))
    (ha : ((new settings table policy).after es).aborted = false) {r : Except ServiceError Move}
    (hr : ((new settings table policy).after es).result? id = some (.move r))
    (hprompted : ¬Unprompted r) :
    ∃ p n c, (new settings table policy).DecidedBy es id p n c ∧ r = verdict p.model n c := by
  rcases told_of_result settings table policy hr with h |
    ⟨xs, n, reply, ⟨ys, rfl⟩, -, p, hthinking, -, -⟩
  · exact absurd h hprompted
  · have hnew : (new settings table policy).stage? id = none := by simp [new, stage?]
    obtain ⟨since, harmed⟩ := hasArmed_of_search hnew (job?_of_append hthinking hjob) hthinking
      (Or.inr rfl)
    obtain ⟨before, hsplit, harms⟩ := harmed.append ys
    rw [hsplit] at ha hr
    rw [result?_eq_some] at hr
    cases harms.follows_after ha with
    | told htold hret hfirst hfin =>
      cases hr.symm.trans hfin
      exact ⟨p, n, _, ⟨_, ⟨before, hsplit, harms⟩, hret, hfirst⟩, rfl⟩
    | failed _ hfin | crashed _ hfin =>
      cases hr.symm.trans hfin
      exact absurd (Or.inl ⟨_, rfl⟩) hprompted
    | submitting _ hs | thinking _ _ hs => cases hr.symm.trans hs.stage_eq

end Results

theorem verdict_eq_ok {model : String} {n : SearchId} {c : Completion} {m : Move} :
    verdict model n c = .ok m ↔ c = ⟨some n, .move m⟩ := by
  obtain ⟨search, outcome⟩ := c
  by_cases hown : search = some n
  · cases outcome <;> simp [verdict, hown]
  · simp [verdict, hown]

theorem verdict_eq_noLegalMove {model : String} {n : SearchId} {c : Completion} :
    verdict model n c = .error .noLegalMove ↔ c = ⟨some n, .noLegalMove⟩ := by
  obtain ⟨search, outcome⟩ := c
  by_cases hown : search = some n
  · cases outcome <;> simp [verdict, hown]
  · simp [verdict, hown]

section Results

variable {settings : EngineSettings} {table : Table} {policy : FailurePolicy} {es : List Event}
  {id : TaskId} {fen : String} {difficulty : Double} {r : Except ServiceError Move}

/-- A request ends with a move exactly if the first completion since its arming was its own and
brought this move. -/
theorem move_iff_decidedBy
    (hjob : ((new settings table policy).after es).job? id = some (.move fen difficulty))
    (ha : ((new settings table policy).after es).aborted = false)
    (hr : ((new settings table policy).after es).result? id = some (.move r)) (m : Move) :
    r = .ok m ↔
      ∃ p n, (new settings table policy).DecidedBy es id p n ⟨some n, .move m⟩ := by
  constructor
  · rintro rfl
    have hprompted : ¬Unprompted (.ok m) := by
      rintro (⟨_, h⟩ | ⟨_, h⟩) <;> cases h
    obtain ⟨p, n, c, hc, hverdict⟩ := decidedBy_of_result hjob ha hr hprompted
    rw [verdict_eq_ok.1 hverdict.symm] at hc
    exact ⟨p, n, hc⟩
  · rintro ⟨p, n, hc⟩
    cases result_of_decidedBy hc ha hr
    exact verdict_eq_ok.2 rfl

/-- It ends with the word that there is none exactly if that was the first completion's. -/
theorem noLegalMove_iff_decidedBy
    (hjob : ((new settings table policy).after es).job? id = some (.move fen difficulty))
    (ha : ((new settings table policy).after es).aborted = false)
    (hr : ((new settings table policy).after es).result? id = some (.move r)) :
    r = .error .noLegalMove ↔
      ∃ p n, (new settings table policy).DecidedBy es id p n ⟨some n, .noLegalMove⟩ := by
  constructor
  · rintro rfl
    have hprompted : ¬Unprompted (.error .noLegalMove) := by
      rintro (⟨_, h⟩ | ⟨_, h⟩) <;> cases h
    obtain ⟨p, n, c, hc, hverdict⟩ := decidedBy_of_result hjob ha hr hprompted
    rw [verdict_eq_noLegalMove.1 hverdict.symm] at hc
    exact ⟨p, n, hc⟩
  · rintro ⟨p, n, hc⟩
    cases result_of_decidedBy hc ha hr
    exact verdict_eq_noLegalMove.2 rfl

/-- No request that has come this far is told that it was invalid. -/
theorem ne_invalidRequest
    (hjob : ((new settings table policy).after es).job? id = some (.move fen difficulty))
    (ha : ((new settings table policy).after es).aborted = false)
    (hr : ((new settings table policy).after es).result? id = some (.move r)) (e : RequestError) :
    r ≠ .error (.invalidRequest e) := by
  rintro rfl
  have hprompted : ¬Unprompted (.error (.invalidRequest e)) := by
    rintro (⟨_, h⟩ | ⟨_, h⟩) <;> cases h
  obtain ⟨p, n, ⟨search, outcome⟩, -, hverdict⟩ := decidedBy_of_result hjob ha hr hprompted
  unfold verdict at hverdict
  split at hverdict
  · cases outcome <;> cases hverdict
  · cases hverdict

end Results

end Sparring.Service
