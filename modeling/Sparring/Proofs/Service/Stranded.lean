import Sparring.Proofs.Run
import Sparring.Proofs.Service.Occupancy

/-!
# A slot that stays armed

A request empties the slot it has armed before it leaves the gate: a completion does it, or the
request itself when its search could not be submitted. There is one exception. A request whose
submission crashes takes its waiter down and leaves, and the slot stays armed; from then on the
search is *stranded* (`Stranded`), until some completion comes.

`slot_account` says that nothing else leaves the slot armed, and nothing else has
a request told that another search is armed.
-/

namespace Sparring.Service

/-! ## Stranded searches -/

/-- Whether the submission of a search has crashed while the slot was armed for it, and no
completion has come since. -/
def Stranded (s : Service) (es : List Event) (n : SearchId) : Prop :=
  ∃ before id message later p,
    es = before ++ .returned id (.crashed message) :: later ∧
    (s.after before).aborted = false ∧
    (s.after before).stage? id = some (.submitting p n) ∧
    (s.after before).handoff.armed = some n ∧
    ∀ c, Event.completed c ∉ later

/-- Whether an event is the crash of the submission of an armed search. -/
def Crashes (s : Service) (e : Event) (n : SearchId) : Prop :=
  ∃ id message p, e = .returned id (.crashed message) ∧ s.aborted = false ∧
    s.stage? id = some (.submitting p n) ∧ s.handoff.armed = some n

theorem not_crashes {s : Service} {e : Event}
    (he : ∀ id message, e ≠ .returned id (.crashed message))
    (n : SearchId) : ¬Crashes s e n := by
  rintro ⟨id, message, p, h, -⟩
  exact he id message h

theorem not_stranded_nil (s : Service) (n : SearchId) : ¬Stranded s [] n := by
  rintro ⟨before, id, message, later, p, h, -⟩
  simp at h

theorem stranded_concat (s : Service) (es : List Event) (e : Event) (n : SearchId) :
    Stranded s (es ++ [e]) n ↔
      (Stranded s es n ∧ ∀ c, e ≠ .completed c) ∨ Crashes (s.after es) e n := by
  constructor
  · rintro ⟨before, id, message, later, p, h, ha, hs, hn, hlater⟩
    rcases concat_eq_append_cons.1 h with ⟨rfl, he, -⟩ | ⟨rest, rfl, rfl⟩
    · exact Or.inr ⟨id, message, p, he, ha, hs, hn⟩
    · exact Or.inl ⟨⟨before, id, message, rest, p, rfl, ha, hs, hn,
        fun c hc => hlater c (by simp [hc])⟩, fun c hc => hlater c (by simp [hc])⟩
  · rintro (⟨⟨before, id, message, later, p, rfl, ha, hs, hn, hlater⟩, he⟩ |
      ⟨id, message, p, rfl, ha, hs, hn⟩)
    · refine ⟨before, id, message, later ++ [e], p, by simp, ha, hs, hn, ?_⟩
      intro c hc
      rcases List.mem_append.1 hc with hc | hc
      · exact hlater c hc
      · exact he c (List.mem_singleton.1 hc).symm
    · exact ⟨es, id, message, [], p, by simp, ha, hs, hn, by simp⟩

theorem not_stranded_completed (s : Service) (es : List Event) (c : Completion) (n : SearchId) :
    ¬Stranded s (es ++ [.completed c]) n := by
  rw [stranded_concat]
  rintro (⟨-, he⟩ | h)
  · exact he c rfl
  · exact not_crashes (fun _ _ => Event.noConfusion) n h

/-- An event that is neither a completion nor a crash strands no search and frees none. -/
theorem stranded_concat_of_quiet {s : Service} {es : List Event} {e : Event}
    (he : ∀ c, e ≠ .completed c) (hc : ∀ n, ¬Crashes (s.after es) e n) (n : SearchId) :
    Stranded s (es ++ [e]) n ↔ Stranded s es n := by
  rw [stranded_concat]
  exact ⟨fun h => h.elim And.left fun h => absurd h (hc n), fun h => Or.inl ⟨h, he⟩⟩

theorem turnEvent_ne_completed (id : TaskId) (r : Option CallResult) (c : Completion) :
    turnEvent id r ≠ .completed c := by
  cases r <;> exact Event.noConfusion

theorem Crashes.of_turn {s : Service} {id : TaskId} {stage : Stage} {r : Option CallResult}
    {n : SearchId} (h : Crashes s (turnEvent id r) n) (hid : s.stage? id = some stage) :
    (∃ message, r = some (.crashed message)) ∧ stage.search? = some n := by
  obtain ⟨j, message, p, he, -, hj, -⟩ := h
  cases r with
  | none => cases he
  | some r =>
    cases he
    cases hid.symm.trans hj
    exact ⟨⟨message, rfl⟩, rfl⟩

/-! ## What a run keeps -/

/-- Whether a task has been told that another search was armed. -/
def ToldArmed (s : Service) (id : TaskId) (n : SearchId) : Prop :=
  s.result? id = some (.move (.error (.handoff (.alreadyArmed n))))

/-- How the slot of a service that has not been aborted stands to its tasks: whatever is armed is
the search of a task or stranded, and while a search is stranded no task has a search. -/
structure Balanced (s : Service) (es : List Event) : Prop where
  owned : ∀ n, (s.after es).handoff.armed = some n → (s.after es).Searching n ∨ Stranded s es n
  armed : ∀ n, Stranded s es n → (s.after es).handoff.armed = some n
  alone : ∀ n m, Stranded s es n → ¬(s.after es).Searching m

/-- What a run keeps. When it has been aborted, somebody is still inside or all is clear. -/
structure Tidy (s : Service) (es : List Event) : Prop where
  balanced : (s.after es).aborted = false → Balanced s es
  aborted : (s.after es).aborted = true →
    (∃ id, (s.after es).gate.hasAccess (.task id) = true) ∨
      ((s.after es).handoff.armed = none ∧ ∀ n, ¬Stranded s es n)
  told : ∀ id n, ToldArmed (s.after es) id n → ∃ before, before <+: es ∧ Stranded s before n

/-! ## Steps -/

section Step

variable {s : Service} {es : List Event}

theorem Balanced.passed (hb : Balanced s es) (ho : (s.after es).Orderly)
    (hs : (s.after es).handoff.Sound) (ha : (s.after es).aborted = false) {id : TaskId}
    {job : Job} {stage : Stage} {r : Option CallResult} {turn : Turn}
    (hid : (s.after es).stage? id = some stage) (hpass : Passage (s.after es) job stage r turn) :
    (∀ n, turn.service.handoff.armed = some n →
      turn.stage.search? = some n ∨ Stranded s (es ++ [turnEvent id r]) n) ∧
    ∀ n, Stranded s (es ++ [turnEvent id r]) n →
      turn.service.handoff.armed = some n ∧ turn.stage.search? = none := by
  have hsearching := ho.searching_iff hid hpass.inside
  -- While the task has a search, no other is armed and none is stranded.
  have hnone : ∀ {m}, stage.search? = some m → ∀ n, ¬Stranded s es n :=
    fun hm n hn => hb.alone n _ hn ((hsearching _).2 hm)
  have hown : ∀ {m}, stage.search? = some m → ∀ n, (s.after es).handoff.armed = some n → n = m := by
    intro m hm n hn
    rcases hb.owned n hn with h | h
    · exact Option.some.inj (((hsearching n).1 h).symm.trans hm)
    · exact absurd h (hnone hm n)
  have hquiet : (∀ message, r ≠ some (.crashed message)) ∨ stage.search? = none →
      ∀ n, Stranded s (es ++ [turnEvent id r]) n ↔ Stranded s es n := by
    intro h
    apply stranded_concat_of_quiet (turnEvent_ne_completed id r)
    intro n hn
    obtain ⟨⟨message, hr⟩, hm⟩ := hn.of_turn hid
    rcases h with h | h
    · exact h message hr
    · rw [h] at hm
      cases hm
  cases hpass with
  | plain registry hin hnot hplain =>
    have hsame := hquiet (Or.inr hnot)
    refine ⟨fun n hn => Or.inr ?_, fun n hn => ⟨hb.armed n ((hsame n).1 hn), ?_⟩⟩
    · rcases hb.owned n hn with h | h
      · rw [hsearching, hnot] at h
        cases h
      · exact (hsame n).2 h
    · exact Stage.search?_of_plain hplain
  | @armed p fen hempty =>
    refine ⟨fun n hn => Or.inl ?_, ?_⟩
    · rw [Handoff.arm_of_empty hempty] at hn
      exact hn
    · intro n hn
      have := hb.armed n ((hquiet (Or.inr rfl) n).1 hn)
      rw [hempty] at this
      cases this
  | @refused p fen m harmed =>
    have hsame := hquiet (Or.inr rfl)
    refine ⟨fun n hn => Or.inr ?_, fun n hn => ⟨hb.armed n ((hsame n).1 hn), rfl⟩⟩
    rcases hb.owned n hn with h | h
    · cases (hsearching n).1 h
    · exact (hsame n).2 h
  | @submitted p m =>
    have hsame := hquiet (Or.inl fun _ => by simp)
    refine ⟨fun n hn => Or.inl ?_, fun n hn => absurd ((hsame n).1 hn) (hnone rfl n)⟩
    rw [hown rfl n hn]
    rfl
  | @withdrawn p m causes =>
    have hsame := hquiet (Or.inl fun _ => by simp)
    refine ⟨?_, fun n hn => absurd ((hsame n).1 hn) (hnone rfl n)⟩
    intro n hn
    simp only [Turn.to, Handoff.armed_leave, Handoff.armed_disarm] at hn
    split at hn
    · cases hn
    next hm => exact absurd (hown rfl n hn ▸ hn) hm
  | @crashed p m message =>
    refine ⟨fun n hn => Or.inr ?_, ?_⟩
    · cases hown rfl n hn
      exact (stranded_concat s es _ m).2 (Or.inr ⟨id, message, p, rfl, ha, hid, hn⟩)
    · intro n hn
      rcases (stranded_concat s es _ n).1 hn with ⟨h, -⟩ | h
      · exact absurd h (hnone rfl n)
      · obtain ⟨_, _, _, _, _, _, hn⟩ := h
        exact ⟨hn, rfl⟩
  | @told p m reply hbox =>
    have hsame := hquiet (Or.inl fun _ h => by cases h)
    refine ⟨?_, fun n hn => absurd ((hsame n).1 hn) (hnone rfl n)⟩
    intro n hn
    cases hown rfl n hn
    exact absurd hbox (hs.pending_of_armed m reply hn)

/-- Whoever has been told that another search was armed was told so while one was stranded. -/
theorem Tidy.told_later (h : Tidy s es) (e : Event) {id : TaskId} {n : SearchId}
    (hn : ToldArmed (s.after es) id n) : ∃ before, before <+: es ++ [e] ∧ Stranded s before n := by
  obtain ⟨before, hbefore, hst⟩ := h.told id n hn
  exact ⟨before, hbefore.trans (List.prefix_append es [e]), hst⟩

/-- A step that touches neither the slot nor a stage behind the gate keeps everything. -/
theorem Tidy.of_quiet (h : Tidy s es) (ha : (s.after es).aborted = false) {e : Event}
    {s' : Service} (hs' : s.after (es ++ [e]) = s')
    (hquiet : ∀ n, Stranded s (es ++ [e]) n ↔ Stranded s es n)
    (harmed : s'.handoff.armed = (s.after es).handoff.armed)
    (haborted : s'.aborted = (s.after es).aborted)
    (hstage : ∀ id stage, stage ≠ .waiting →
      (s'.stage? id = some stage ↔ (s.after es).stage? id = some stage)) :
    Tidy s (es ++ [e]) := by
  have hb := h.balanced ha
  have hsearching : ∀ n, s'.Searching n ↔ (s.after es).Searching n := by
    refine fun n => exists_congr fun id => exists_congr fun stage => and_congr_left ?_
    intro hn
    exact hstage id stage fun hw => by rw [hw] at hn; cases hn
  refine ⟨fun _ => ⟨?_, ?_, ?_⟩, ?_, ?_⟩
  · intro n hn
    rw [hs', harmed] at hn
    rw [hs', hsearching, hquiet]
    exact hb.owned n hn
  · intro n hn
    rw [hs', harmed]
    exact hb.armed n ((hquiet n).1 hn)
  · intro n m hn
    rw [hs', hsearching]
    exact hb.alone n m ((hquiet n).1 hn)
  · intro ha'
    rw [hs', haborted, ha] at ha'
    cases ha'
  · intro id n hn
    rw [hs', ToldArmed, result?_eq_some, hstage _ _ Stage.noConfusion, ← result?_eq_some] at hn
    exact h.told_later e hn

/-- A step that moves a task on keeps everything if it accounts for the slot and for what the
task is told. -/
theorem Tidy.of_move (h : Tidy s es) {e : Event} {id : TaskId} {stage : Stage} {turn : Turn}
    (hs' : s.after (es ++ [e]) = (move id turn).1)
    (hstage : ∀ j, turn.service.stage? j = (s.after es).stage? j)
    (hid : (s.after es).stage? id = some stage) (halone : turn.service.Alone id)
    (hgo : turn.service.aborted = false)
    (haccess : turn.Fatal → turn.service.gate.hasAccess (.task id) = true)
    (howned : ∀ n, turn.service.handoff.armed = some n →
      turn.stage.search? = some n ∨ Stranded s (es ++ [e]) n)
    (harmed : ∀ n, Stranded s (es ++ [e]) n →
      turn.service.handoff.armed = some n ∧ turn.stage.search? = none)
    (htold : ∀ n, turn.stage = .finished (.move (.error (.handoff (.alreadyArmed n)))) →
      Stranded s es n) :
    Tidy s (es ++ [e]) := by
  have haborted : (move id turn).1.aborted = decide turn.Fatal := by
    rw [aborted_move, hgo, Bool.or_false]
  refine ⟨?_, fun ha => Or.inl ⟨id, ?_⟩, ?_⟩
  · intro ha
    rw [hs', haborted] at ha
    have hsearching := halone.searching_move ((hstage id).trans hid) (of_decide_eq_false ha)
    refine ⟨?_, ?_, ?_⟩
    · intro n hn
      rw [hs', handoff_move] at hn
      rw [hs', hsearching]
      exact howned n hn
    · intro n hn
      rw [hs', handoff_move]
      exact (harmed n hn).1
    · intro n m hn
      rw [hs', hsearching, (harmed n hn).2]
      exact fun hm => by cases hm
  · rw [hs', haborted] at ha
    rw [hs', gate_move, if_pos (of_decide_eq_true ha)]
    exact haccess (of_decide_eq_true ha)
  · intro j n hj
    rw [hs', ToldArmed, result?_eq_some, stage?_move] at hj
    split at hj
    · obtain ⟨_, -, hj⟩ := Option.map_eq_some_iff.1 hj
      exact ⟨es, List.prefix_append es [e], htold n hj⟩
    · rw [hstage, ← result?_eq_some] at hj
      exact h.told_later e hj

theorem ne_alreadyArmed_of_plain {stage : Stage} (h : stage.Plain) (n : SearchId) :
    stage ≠ .finished (.move (.error (.handoff (.alreadyArmed n)))) := by
  rintro rfl
  obtain ⟨causes, hc⟩ := h
  cases hc

/-- Only a request that finds another search armed is told so. -/
theorem Balanced.told (hb : Balanced s es) (ho : (s.after es).Orderly)
    (hs : (s.after es).handoff.Sound) {id : TaskId} {job : Job} {stage : Stage}
    {r : Option CallResult} {turn : Turn} (hid : (s.after es).stage? id = some stage)
    (hpass : Passage (s.after es) job stage r turn) (n : SearchId)
    (hn : turn.stage = .finished (.move (.error (.handoff (.alreadyArmed n))))) :
    Stranded s es n := by
  cases hpass with
  | plain registry hin hnot hplain =>
    exact absurd hn (ne_alreadyArmed_of_plain hplain n)
  | armed | submitted => cases hn
  | refused harmed =>
    cases hn
    rcases hb.owned _ harmed with h | h
    · cases (ho.searching_iff hid rfl _).1 h
    · exact h
  | withdrawn causes => cases job <;> cases hn
  | crashed message => cases job <;> cases hn
  | @told p m reply hbox =>
    rcases hs.fits m reply hbox with ⟨o, rfl⟩ | ⟨g, rfl⟩ | rfl
    · cases o <;> cases hn
    · cases hn
    · cases hn

theorem Tidy.of_aborted (h : Tidy s es) (ha : (s.after es).aborted = true) (e : Event) :
    Tidy s (es ++ [e]) := by
  have hs' : s.after (es ++ [e]) = s.after es := by
    rw [after_concat, step_of_aborted ha]
  refine ⟨?_, ?_, ?_⟩
  · intro hgo
    rw [hs', ha] at hgo
    cases hgo
  · intro _
    rw [hs']
    refine (h.aborted ha).imp_right fun ⟨harmed, hno⟩ => ⟨harmed, ?_⟩
    intro n hn
    rcases (stranded_concat s es e n).1 hn with ⟨hst, -⟩ | ⟨_, _, _, _, hgo, -⟩
    · exact hno n hst
    · rw [ha] at hgo
      cases hgo
  · intro id n hn
    rw [hs'] at hn
    exact h.told_later e hn

theorem Tidy.completed (h : Tidy s es) (c : Completion)
    (hhandoff : (s.after (es ++ [.completed c])).handoff = ((s.after es).handoff.fulfill c).2)
    (htasks : (s.after (es ++ [.completed c])).tasks = (s.after es).tasks) :
    Tidy s (es ++ [.completed c]) := by
  have hno := not_stranded_completed s es c
  have hempty : (s.after (es ++ [.completed c])).handoff.armed = none := by
    rw [hhandoff, Handoff.armed_fulfill]
  refine ⟨fun _ => ⟨?_, fun n hn => absurd hn (hno n), fun n m hn => absurd hn (hno n)⟩,
    fun _ => Or.inr ⟨hempty, hno⟩, ?_⟩
  · intro n hn
    rw [hempty] at hn
    cases hn
  · intro id n hn
    rw [ToldArmed, result?, htasks] at hn
    exact h.told_later _ hn

/-- A task that is let in starts without a search, and nobody else has one. -/
theorem Tidy.entered (h : Tidy s es) (ho : (s.after es).Orderly)
    (ha : (s.after es).aborted = false) {id : TaskId} {t : Task}
    (ht : (s.after es).tasks[id]? = some t) (hw : t.stage = .waiting)
    (hp : ((s.after es).gate.poll (.task id)).1 = true)
    (hs' : s.after (es ++ [.run id]) = (move id (.to ((s.after es).firstStage t.job)
      { s.after es with gate := ((s.after es).gate.poll (.task id)).2 })).1) :
    Tidy s (es ++ [.run id]) := by
  have hb := h.balanced ha
  have hid := stage?_of_task ht
  have hquiet : ∀ n, Stranded s (es ++ [.run id]) n ↔ Stranded s es n :=
    stranded_concat_of_quiet (fun _ => Event.noConfusion)
      (not_crashes fun _ _ => Event.noConfusion)
  have hplain := plain_firstStage (s.after es) t.job
  have halone := ho.alone_of_poll hp
  refine h.of_move hs' (fun _ => rfl) hid halone ha (fun hf => absurd hf (not_fatal_to _ _))
    (fun n hn => Or.inr ?_) (fun n hn => ⟨hb.armed n ((hquiet n).1 hn), ?_⟩)
    fun n hn => absurd hn (ne_alreadyArmed_of_plain hplain n)
  · rcases hb.owned n hn with hm | hst
    · exact absurd hm (halone.not_searching hid (by rw [hw]; rfl) n)
    · exact (hquiet n).2 hst
  · exact Stage.search?_of_plain hplain

theorem Tidy.step (h : Tidy s es) (ho : (s.after es).Orderly)
    (hs : (s.after es).handoff.Sound) (e : Event) : Tidy s (es ++ [e]) := by
  cases ha : (s.after es).aborted with
  | true => exact h.of_aborted ha e
  | false =>
    have hc := change_step ha e
    have hs' := after_concat s es e
    generalize (s.after es).step e = out at hc hs'
    -- Only a completion and a task inside the gate touch the slot.
    cases hc with
    | idle hidle =>
      refine h.of_quiet ha hs' (stranded_concat_of_quiet ?_ ?_) rfl rfl fun _ _ _ => Iff.rfl
      · rintro c rfl
        exact hidle
      · rintro n ⟨id, message, p, rfl, -, hst, -⟩
        obtain ⟨t, ht, hst⟩ := Option.map_eq_some_iff.1 hst
        have := hidle t ht
        rw [hst] at this
        cases this
    | arrived job =>
      refine h.of_quiet ha hs' (stranded_concat_of_quiet (fun _ => Event.noConfusion)
        (not_crashes fun _ _ => Event.noConfusion)) rfl rfl ?_
      intro id stage hne
      rw [stage?_arrive]
      split
      next he =>
        rw [he, stage?_next]
        exact ⟨fun h => absurd (Option.some.inj h).symm hne, fun h => by cases h⟩
      next => exact Iff.rfl
    | completed c => exact h.completed c (congrArg (·.handoff) hs') (congrArg (·.tasks) hs')
    | queued ht hw hp =>
      exact h.of_quiet ha hs' (stranded_concat_of_quiet (fun _ => Event.noConfusion)
        (not_crashes fun _ _ => Event.noConfusion)) rfl rfl fun _ _ _ => Iff.rfl
    | entered ht hw hp => exact h.entered ho ha ht hw hp hs'
    | @passed e id t r turn he ht hpass =>
      subst he
      have hb := h.balanced ha
      have hid := stage?_of_task ht
      obtain ⟨howned, harmed⟩ := hb.passed ho hs ha hid hpass
      refine h.of_move hs' hpass.stage?_eq hid (hpass.alone ho hid) ?_ (fun _ => ?_) howned harmed
        fun n hn => hb.told ho hs hid hpass n hn
      · rw [hpass.aborted_eq, ha]
      · rw [hpass.gate_eq]
        exact ho id t.stage hid hpass.inside

end Step

/-! ## Requests that are turned away -/

/-- Whether a request has only its search before it: its position is being set. -/
def Positioning (s : Service) (id : TaskId) : Prop :=
  ∃ t fen difficulty p fen', s.tasks[id]? = some t ∧ t.job = .move fen difficulty ∧
    t.stage = .positioning p fen'

/-- Whether a request has been turned away as another search was armed, or the process has ended
over it. -/
def TurnedAway (s : Service) (id : TaskId) : Prop :=
  s.aborted = true ∨ ∃ n, ToldArmed s id n

theorem step_of_positioning {s : Service} {id : TaskId} (ha : s.aborted = false)
    (h : s.Positioning id) : ∃ p fen, s.stage? id = some (.positioning p fen) ∧
      (s.step (.returned id .ok)).1 = (move id (s.arm p)).1 := by
  obtain ⟨t, fen, difficulty, p, fen', ht, hjob, hstage⟩ := h
  refine ⟨p, fen', by rw [stage?_of_task ht, hstage], ?_⟩
  have hgo : ¬s.aborted = true := by simp [ha]
  rw [step, if_neg hgo]
  simp only [ht]
  rw [hjob, hstage]
  rfl

theorem turnedAway_iff {s : Service} {id : TaskId} (ha : s.aborted = false)
    (h : s.Positioning id) :
    TurnedAway (s.step (.returned id .ok)).1 id ↔ ∃ n, s.handoff.armed = some n := by
  obtain ⟨p, fen, hid, hstep⟩ := step_of_positioning ha h
  rw [hstep, arm]
  -- Whether the slot takes the search depends on nothing but whether it is empty.
  cases hn : s.handoff.armed with
  | none =>
    rw [Handoff.arm_of_empty hn]
    refine ⟨?_, fun ⟨n, hn⟩ => by cases hn⟩
    intro hturned
    rcases hturned with hgone | ⟨n, htold⟩
    · rw [aborted_move, decide_eq_false (not_fatal_to _ _)] at hgone
      exact absurd hgone (by simp [Turn.to, ha])
    · rw [ToldArmed, result?_eq_some, stage?_move, if_pos ⟨rfl, not_fatal_to _ _⟩] at htold
      obtain ⟨_, -, htold⟩ := Option.map_eq_some_iff.1 htold
      cases htold
  | some m =>
    rw [Handoff.arm_of_armed hn]
    refine ⟨fun _ => ⟨m, rfl⟩, ?_⟩
    intro _
    simp only
    by_cases hf : Turn.Fatal ⟨.finished (.move (.error (.handoff (.alreadyArmed m)))), s,
        some (.alreadyArmed m)⟩
    · exact Or.inl (by rw [aborted_move, decide_eq_true hf]; rfl)
    · refine Or.inr ⟨m, ?_⟩
      rw [ToldArmed, result?_eq_some, stage?_move, if_pos ⟨rfl, hf⟩]
      exact congrArg (Option.map _) hid

/-! ## Every run -/

/-- What a run of a service says about its slot. -/
structure SlotAccount (s : Service) (es : List Event) : Prop where
  /-- While no request is inside the gate, the slot is armed exactly for a stranded search. -/
  armed_iff : (∀ id, (s.after es).gate.hasAccess (.task id) = false) →
    ∀ n, (s.after es).handoff.armed = some n ↔ Stranded s es n
  /-- A request is told that another search is armed only if that search was stranded. -/
  told : ∀ id n, ToldArmed (s.after es) id n → ∃ before, before <+: es ∧ Stranded s before n
  /-- A request that has come to its search is turned away exactly if one is stranded. -/
  turned_away : ∀ id, (s.after es).aborted = false → (s.after es).Positioning id →
    (TurnedAway (s.after (es ++ [.returned id .ok])) id ↔ ∃ n, Stranded s es n)

section Run

variable (settings : EngineSettings) (table : Table) (policy : FailurePolicy)

theorem tidy_new : Tidy (new settings table policy) [] where
  balanced _ :=
    ⟨fun n hn => (by cases hn), fun n hn => absurd hn (not_stranded_nil _ n),
      fun n m hn => absurd hn (not_stranded_nil _ n)⟩
  aborted ha := by cases ha
  told id n hn := by
    rw [ToldArmed, result?_eq_some] at hn
    simp [new, stage?] at hn

theorem tidy (es : List Event) : Tidy (new settings table policy) es := by
  induction es using List.reverseRecOn with
  | nil => exact tidy_new settings table policy
  | append_singleton es e ih =>
    exact ih.step (orderly_after (orderly_new settings table policy) es)
      (sound_after Handoff.sound_new es) e

/-- Nothing but a crash of a submission leaves the slot armed. -/
theorem slot_account (es : List Event) : SlotAccount (new settings table policy) es := by
  have h := tidy settings table policy es
  have ho := orderly_after (orderly_new settings table policy) es
  refine ⟨?_, h.told, ?_⟩
  · intro hout n
    cases ha : ((new settings table policy).after es).aborted with
    | true =>
      rcases h.aborted ha with ⟨id, hid⟩ | ⟨hn, hno⟩
      · rw [hout id] at hid
        cases hid
      · rw [hn]
        exact ⟨fun hn => (by cases hn), fun hst => absurd hst (hno n)⟩
    | false =>
      have hb := h.balanced ha
      refine ⟨fun hn => (hb.owned n hn).resolve_left ?_, hb.armed n⟩
      rintro ⟨id, stage, hid, hm⟩
      have := ho id stage hid (Stage.isInside_of_search? hm)
      rw [hout id] at this
      cases this
  · intro id ha hid
    have hb := h.balanced ha
    rw [after_concat, turnedAway_iff ha hid]
    obtain ⟨p, fen, hst, -⟩ := step_of_positioning ha hid
    refine exists_congr fun n => ⟨fun hn => (hb.owned n hn).resolve_left ?_, hb.armed n⟩
    exact fun hm => by cases (ho.searching_iff hst rfl n).1 hm

end Run

/-- A request at difficulty 0.4. -/
def bareKings : Job := .move "8/8/8/8/8/8/8/K6k w - - 0 1" (.ofRatio .double false 2 5)

/-- A request gets as far as its search, whose submission crashes; the next one, for which the
engine is there already, gets as far. -/
def crashedRun : List Event :=
  [.start bareKings, .run 0] ++ List.replicate 6 (.returned 0 .ok) ++
    [.returned 0 (.crashed "boom"), .start bareKings, .run 1, .returned 1 .ok]

/-- The crash leaves the gate free and the slot armed, and the next request learns of it. -/
theorem crash_leaves_slot_armed :
    ((new .stock .stock .respond).after (crashedRun.take 9)).gate = .free ∧
    ((new .stock .stock .respond).after (crashedRun.take 9)).handoff.armed = some ⟨1⟩ ∧
    ToldArmed ((new .stock .stock .respond).after (crashedRun ++ [.returned 1 .ok])) 1 ⟨1⟩ :=
  ⟨rfl, rfl, rfl⟩

end Sparring.Service
