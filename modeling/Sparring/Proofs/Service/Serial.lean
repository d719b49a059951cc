import Sparring.Proofs.Service.Stranded
import Sparring.Proofs.Service.Visits

/-!
# One request after another

A request makes all its calls to engines while it is inside the gate, so the calls of a run do not
mix: they come in blocks, one for each request that was let in, in the order in which the
requests first asked. So they are the calls of a service that serves these requests one after
another. `calls_eq_serve` says so of every run of requests in which no submission of a search
crashes, whatever the engines do.

The invariant (`Accounted`) has three parts: the calls so far are those of the visits so far, the
ledger of these calls agrees with the registry and with the numbers issued, and the request inside
the gate is in the middle of the last block.
-/

namespace Sparring.Service

/-- The searches whose submission crashes. -/
def crashedSearches (s : Service) : Event → List SearchId
  | .returned id (.crashed _) =>
    match s.stage? id with
    | some (.submitting _ n) => [n]
    | _ => []
  | _ => []

/-! ## Services that go on -/

theorem not_fatal_of_respond {turn : Turn} (h : turn.service.policy = .respond) : ¬turn.Fatal := by
  unfold Turn.Fatal
  rw [h]
  cases turn.escalated <;> simp [FailurePolicy.aborts]

theorem going_step {s : Service} (hp : s.policy = .respond) (ha : s.aborted = false) (e : Event) :
    (s.step e).1.aborted = false := by
  have hc := change_step ha e
  generalize s.step e = out at hc
  cases hc with
  | idle | arrived | queued => exact ha
  | completed c =>
    show s.ends (s.handoff.fulfill c).1 = false
    cases (s.handoff.fulfill c).1 <;> simp [ends, hp, FailurePolicy.aborts]
  | entered =>
    rw [aborted_move, decide_eq_false (not_fatal_to _ _)]
    exact ha
  | passed he ht hpass =>
    rw [aborted_move, decide_eq_false (not_fatal_of_respond (hpass.policy_eq.trans hp)),
      hpass.aborted_eq]
    exact ha

theorem going_after {s : Service} (hp : s.policy = .respond) (ha : s.aborted = false)
    (es : List Event) : (s.after es).aborted = false := by
  have hkeep := after_of_step (P := fun s' => s'.terms = s.terms ∧ s'.aborted = false)
    (fun s' e h => ⟨(terms_step s' e).trans h.1,
      going_step ((congrArg (·.2.2) h.1).trans hp) h.2 e⟩) ⟨rfl, ha⟩ es
  exact hkeep.2

/-! ## The account -/

/-- What a run says about its calls, if a ledger tells how things stood before it. -/
structure Accounted (s : Service) (l : Ledger) (es : List Event) : Prop where
  calls : (s.steps es).2 = serve s.settings s.table l (s.visits es)
  kept : Kept (s.after es) (l.after (s.steps es).2)
  numbered : searches (s.steps es).2 = firstNumbers (s.after es).handoff.issued
  /-- The request inside the gate was let in last. -/
  serving : ∀ id stage, (s.after es).stage? id = some stage → stage.isInside = true →
    ∃ before v, s.visits es = before ++ [v] ∧ v.request.task = id ∧
      Serving (s.after es)
        (block s.settings s.table (l.after (serve s.settings s.table l before)) v.request) v stage

theorem Serving.of_same {s s' : Service} {calls : List EngineCall} {v : Visit} {stage : Stage}
    (h : Serving s calls v stage) (hsettings : s'.settings = s.settings)
    (hregistry : s'.registry = s.registry) (hissued : s'.handoff.issued = s.handoff.issued) :
    Serving s' calls v stage := by
  obtain ⟨⟨n, made, hcalls, hresults, hn⟩, habsent⟩ := h
  refine ⟨⟨n, made, ?_, hresults, ?_⟩, ?_⟩
  · rwa [hsettings]
  · rwa [hissued]
  · rwa [hregistry]

theorem settings_after (s : Service) (es : List Event) : (s.after es).settings = s.settings :=
  congrArg (·.1) (terms_after s es)

theorem table_after (s : Service) (es : List Event) : (s.after es).table = s.table :=
  congrArg (·.2.1) (terms_after s es)

theorem made_of_move {s : Service} {e : Event} {id : TaskId} {turn : Turn}
    (hstep : s.step e = move id turn) (hf : ¬turn.Fatal) : s.made e = turn.stage.call?.toList := by
  unfold made
  rw [hstep, move_of_not_fatal hf]
  cases turn.stage.call? <;> rfl

section Step

variable {s : Service} {l : Ledger} {es : List Event} {e : Event}

/-- A step that makes no call, lets nobody in and brings nothing back. -/
theorem Accounted.silent (h : Accounted s l es) (hmade : (s.after es).made e = [])
    (hvisits : s.visits (es ++ [e]) = s.visits es)
    (hregistry : (s.after (es ++ [e])).registry = (s.after es).registry)
    (hissued : (s.after (es ++ [e])).handoff.issued = (s.after es).handoff.issued)
    (hstage : ∀ id stage, (s.after (es ++ [e])).stage? id = some stage → stage.isInside = true →
      (s.after es).stage? id = some stage) :
    Accounted s l (es ++ [e]) := by
  have hcalls : (s.steps (es ++ [e])).2 = (s.steps es).2 := by
    rw [calls_concat, hmade, List.append_nil]
  refine ⟨?_, ⟨?_, ?_⟩, ?_, ?_⟩
  · rw [hcalls, hvisits]
    exact h.calls
  · rw [hcalls, hregistry]
    exact h.kept.ready
  · rw [hcalls, hissued]
    exact h.kept.goes
  · rw [hcalls, hissued]
    exact h.numbered
  · intro id stage hid hin
    obtain ⟨before, v, hv, htask, hserving⟩ := h.serving id stage (hstage id stage hid hin) hin
    refine ⟨before, v, hvisits.trans hv, htask, hserving.of_same ?_ hregistry hissued⟩
    rw [settings_after, settings_after]

theorem stage?_of_moved {id : TaskId} {turn : Turn}
    (halone : turn.service.Alone id) (hf : ¬turn.Fatal) {j : TaskId} {stage : Stage}
    (hj : (move id turn).1.stage? j = some stage) (hin : stage.isInside = true) :
    j = id ∧ stage = turn.stage := by
  rw [stage?_move] at hj
  by_cases he : j = id
  · rw [if_pos ⟨he, hf⟩] at hj
    obtain ⟨_, -, rfl⟩ := Option.map_eq_some_iff.1 hj
    exact ⟨he, rfl⟩
  · rw [if_neg fun h => he h.1] at hj
    rw [halone j stage he hj] at hin
    cases hin

/-- A request that is let in opens a block. -/
theorem Accounted.entered (h : Accounted s l es) (ho : (s.after es).Orderly)
    (hmoves : (s.after es).AllMoves) {id : TaskId} {t : Task} (ha : (s.after es).aborted = false)
    (ht : (s.after es).tasks[id]? = some t) (hw : t.stage = .waiting)
    (hp : ((s.after es).gate.poll (.task id)).1 = true) : Accounted s l (es ++ [.run id]) := by
  have hstep := step_of_letIn ha ht hw hp
  obtain ⟨fen, difficulty, hjob, hr⟩ := hmoves.job_eq ht
  rw [hjob] at hstep
  have hcalls : (s.steps (es ++ [.run id])).2 = (s.steps es).2 ++
      ((s.after es).firstStage (.move fen difficulty)).call?.toList := by
    rw [calls_concat, made_of_move hstep (not_fatal_to _ _)]
    rfl
  have hnew := not_hasEntered_of_waiting ht hw
  have hvisits := visits_of_entering
    (by simp [entering, asking_of_waiting ha ht hw, hp]) hr hnew
  have hafter := congrArg Prod.fst hstep
  rw [← after_concat] at hafter
  -- The block that is opened depends on what the calls so far have left behind.
  obtain ⟨hserving, hreached, hkept⟩ := serving_firstStage (s.after (es ++ [.run id])) h.kept
    ⟨id, fen, difficulty⟩ (by rw [settings_after, settings_after])
    (by rw [hafter, registry_move]; rfl) (by rw [hafter, handoff_move]; rfl) rfl
  rw [settings_after, table_after] at hserving hreached
  refine ⟨?_, ?_, ?_, ?_⟩
  · rw [hcalls, hvisits, serve_concat, ← h.calls, Visit.calls, hreached]
  · rw [hcalls, Ledger.after_append]
    exact hkept
  · rw [hcalls, searches_append, searches_of_plain ((s.after es).plain_firstStage _),
      List.append_nil, h.numbered, hafter, handoff_move]
    rfl
  · intro j stage hj hin
    rw [hafter] at hj
    obtain ⟨rfl, rfl⟩ := stage?_of_moved (ho.alone_of_poll hp) (not_fatal_to _ _) hj hin
    refine ⟨s.visits es, _, hvisits, rfl, ?_⟩
    rw [← h.calls]
    exact hserving

/-- The slot is empty as long as the request inside the gate has no search. -/
theorem armed_of_no_search (hb : Balanced s es) (hcrash : s.shown crashedSearches es = [])
    (ho : (s.after es).Orderly) {id : TaskId} {stage : Stage}
    (hid : (s.after es).stage? id = some stage) (hin : stage.isInside = true)
    (hno : stage.search? = none) : (s.after es).handoff.armed = none := by
  by_contra hne
  obtain ⟨n, hn⟩ := Option.ne_none_iff_exists'.1 hne
  rcases hb.owned n hn with hsearch | ⟨before, j, message, later, p, rfl, -, hj, -⟩
  · rw [ho.searching_iff hid hin, hno] at hsearch
    cases hsearch
  · have hmem : n ∈ s.shown crashedSearches
        (before ++ .returned j (.crashed message) :: later) := by
      refine mem_observe.2 ⟨before, _, later, rfl, ?_⟩
      rw [foldl_step]
      simp [crashedSearches, hj]
    rw [hcrash] at hmem
    cases hmem

/-- The request inside the gate has the last of the visits, and no other. -/
theorem Accounted.inside (h : Accounted s l es) (hq : Queued s es) (hmoves : (s.after es).AllMoves)
    {id : TaskId} {t : Task} (ht : (s.after es).tasks[id]? = some t)
    (hin : t.stage.isInside = true) :
    ∃ before v, s.visits es = before ++ [v] ∧ v.request.task = id ∧
      (∀ u ∈ before, u.request.task ≠ id) ∧ t.job = .move v.request.fen v.request.difficulty ∧
      Serving (s.after es)
        (block s.settings s.table (l.after (serve s.settings s.table l before)) v.request) v
        t.stage := by
  obtain ⟨before, v, hv, htask, hserving⟩ := h.serving id t.stage (stage?_of_task ht) hin
  refine ⟨before, v, hv, htask, ?_, ?_, hserving⟩
  · intro u hu he
    have hnodup := hq.nodup
    rw [← visits_task hmoves, hv, List.map_append, List.nodup_append] at hnodup
    exact hnodup.2.2 _ (List.mem_map_of_mem hu) _ (List.mem_map_of_mem List.mem_cons_self)
      (he.trans htask.symm)
  · have hmem : v ∈ s.visits es := by simp [hv]
    obtain ⟨r, hr, rfl⟩ := List.mem_map.1 hmem
    have hjob := mem_requests hr
    rw [show r.task = id from htask, job?_of_task ht] at hjob
    exact Option.some.inj hjob

/-- A call that has succeeded brings the request one call further in its block. -/
theorem Accounted.returned_ok (h : Accounted s l es) (hq : Queued s es) (ho : (s.after es).Orderly)
    (hmoves : (s.after es).AllMoves) (ha : (s.after es).aborted = false) {id : TaskId} {t : Task}
    {c : EngineCall} (ht : (s.after es).tasks[id]? = some t) (hc : t.stage.call? = some c)
    (hempty : t.stage.search? = none → (s.after es).handoff.armed = none) :
    Accounted s l (es ++ [.returned id .ok]) := by
  have hid := stage?_of_task ht
  have hin := Stage.isInside_of_call? hc
  obtain ⟨before, v, hv, htask, hbefore, hjob, hserving⟩ := h.inside hq hmoves ht hin
  obtain ⟨turn, hturn⟩ : ∃ turn, (s.after es).answer t.job t.stage .ok = some turn := by
    refine Option.ne_none_iff_exists'.1 fun hnone => ?_
    rw [call?_of_answer hnone] at hc
    cases hc
  have hpass := passage_answer hturn
  have hstep : (s.after es).step (.returned id .ok) = move id turn := by
    rw [step_returned ha ht, hturn]
    rfl
  rw [hjob] at hturn
  have hadv := advance_of_succeed hempty hturn
  have hquiet : ¬turn.Fatal := by simp [Turn.Fatal, hadv.quiet]
  obtain ⟨hserving', hreached⟩ := hserving.advance hadv
  have hcalls : (s.steps (es ++ [.returned id .ok])).2 =
      (s.steps es).2 ++ turn.stage.call?.toList := by
    rw [calls_concat, made_of_move hstep hquiet]
  have hvisits := visits_of_returned hid hc .ok hv htask hbefore
  have hafter := congrArg Prod.fst hstep
  rw [← after_concat] at hafter
  have hkept := hadv.kept h.kept hserving.absent
  -- The block of the request has one call more behind it and one less before it.
  refine ⟨?_, ⟨?_, ?_⟩, ?_, ?_⟩
  · rw [hcalls, hvisits, serve_concat, Visit.calls, hreached, h.calls, hv, serve_concat,
      Visit.calls, List.append_assoc]
  · rw [hcalls, Ledger.after_append, hafter, registry_move]
    exact hkept.ready
  · rw [hcalls, Ledger.after_append, hafter, handoff_move]
    exact hkept.goes
  · rw [hcalls, searches_append, h.numbered, hafter, handoff_move, hadv.numbered]
  · intro j stage hj hin'
    rw [hafter] at hj
    obtain ⟨rfl, rfl⟩ := stage?_of_moved (hpass.alone ho hid) hquiet hj hin'
    refine ⟨before, _, hvisits, htask, hserving' _ ?_ ?_ ?_⟩
    · rw [settings_after, hadv.settings_eq, settings_after]
    · rw [hafter, registry_move]
    · rw [hafter, handoff_move]

theorem answer_of_failed (s : Service) (job : Job) {stage : Stage} {c : EngineCall}
    (hc : stage.call? = some c) {r : CallResult} (hr : r ≠ .ok) :
    ∃ result s', s.answer job stage r = some (.to (.finished result) s') ∧
      s'.registry = s.registry ∧ s'.handoff.issued = s.handoff.issued := by
  cases r with
  | ok => exact absurd rfl hr
  | failed | crashed =>
    cases stage with
    | setup | startingGame | positioning => exact ⟨_, s, rfl, rfl, rfl⟩
    | submitting => exact ⟨_, _, rfl, rfl, by simp⟩
    | waiting | thinking | finished => cases hc

/-- A call that has not succeeded ends the block. -/
theorem Accounted.returned_failed (h : Accounted s l es) (hq : Queued s es)
    (ho : (s.after es).Orderly) (hmoves : (s.after es).AllMoves)
    (ha : (s.after es).aborted = false) {id : TaskId} {t : Task} {c : EngineCall}
    (ht : (s.after es).tasks[id]? = some t) (hc : t.stage.call? = some c) {r : CallResult}
    (hr : r ≠ .ok) : Accounted s l (es ++ [.returned id r]) := by
  have hid := stage?_of_task ht
  have hin := Stage.isInside_of_call? hc
  obtain ⟨before, v, hv, htask, hbefore, -, hserving⟩ := h.inside hq hmoves ht hin
  obtain ⟨result, s', hturn, hregistry, hissued⟩ :=
    answer_of_failed (s.after es) t.job hc hr
  have hpass := passage_answer hturn
  have hstep : (s.after es).step (.returned id r) = move id (.to (.finished result) s') := by
    rw [step_returned ha ht, hturn]
    rfl
  have hcalls : (s.steps (es ++ [.returned id r])).2 = (s.steps es).2 := by
    rw [calls_concat, made_of_move hstep (not_fatal_to _ _)]
    exact List.append_nil _
  have hvisits := visits_of_returned hid hc r hv htask hbefore
  have hafter := congrArg Prod.fst hstep
  rw [← after_concat] at hafter
  refine ⟨?_, ⟨?_, ?_⟩, ?_, ?_⟩
  · rw [hcalls, hvisits, serve_concat, Visit.calls, hserving.reached_failed hc hr, h.calls, hv,
      serve_concat, Visit.calls]
  · rw [hcalls, hafter, registry_move]
    exact hregistry ▸ h.kept.ready
  · rw [hcalls, hafter, handoff_move]
    exact hissued ▸ h.kept.goes
  · rw [hcalls, h.numbered, hafter, handoff_move]
    exact congrArg firstNumbers hissued.symm
  · intro j stage hj hin'
    rw [hafter] at hj
    obtain ⟨-, rfl⟩ := stage?_of_moved (hpass.alone ho hid) (not_fatal_to _ _) hj hin'
    cases hin'

theorem made_of_step {s : Service} {e : Event} {out : Service × Option Effect}
    (hstep : s.step e = out) (hquiet : ∀ id c, out.2 ≠ some (.call id c)) : s.made e = [] := by
  unfold made
  rw [hstep]
  split
  next id c hcall => exact absurd hcall (hquiet id c)
  · rfl

theorem Accounted.told (h : Accounted s l es) (hp : s.policy = .respond)
    (ho : (s.after es).Orderly) {id : TaskId} {t : Task} {turn : Turn}
    (ht : (s.after es).tasks[id]? = some t) (hpass : Passage (s.after es) t.job t.stage none turn)
    (hstep : (s.after es).step (.run id) = move id turn) : Accounted s l (es ++ [.run id]) := by
  have hid := stage?_of_task ht
  have hpolicy : turn.service.policy = .respond :=
    hpass.policy_eq.trans ((congrArg (·.2.2) (terms_after s es)).trans hp)
  have hf := not_fatal_of_respond hpolicy
  have hafter := congrArg Prod.fst hstep
  rw [← after_concat] at hafter
  have hplace : (s.after es).entering (.run id) = [] := by
    rcases entering_eq (s.after es) (.run id) with hnone | ⟨j, u, he, -, hu, hw, -⟩
    · exact hnone
    · cases he
      exact absurd (hpass.hasEntered ht) (not_hasEntered_of_waiting hu hw)
  have hfinish : ∃ r, turn.stage = .finished r ∧ turn.service.registry = (s.after es).registry ∧
      turn.service.handoff.issued = (s.after es).handoff.issued := by
    generalize t.stage = stage at hpass
    cases hpass
    exact ⟨_, rfl, rfl, by simp⟩
  obtain ⟨r, hstage, hregistry, hissued⟩ := hfinish
  refine h.silent ?_ (visits_of_silent hplace fun _ => rfl) ?_ ?_ ?_
  · rw [made_of_move hstep hf, hstage]
    rfl
  · rw [hafter, registry_move, hregistry]
  · rw [hafter, handoff_move, hissued]
  · intro j stage hj hin
    rw [hafter] at hj
    obtain ⟨-, rfl⟩ := stage?_of_moved (hpass.alone ho hid) hf hj hin
    rw [hstage] at hin
    cases hin

/-- Only a task that thinks is inside the gate without an outstanding call. -/
theorem call?_of_inside {stage : Stage} (hin : stage.isInside = true)
    (hno : stage.search? = none) : ∃ c, stage.call? = some c := by
  cases stage with
  | setup | startingGame | positioning => exact ⟨_, rfl⟩
  | submitting | thinking => cases hno
  | waiting | finished => cases hin

theorem Accounted.step (h : Accounted s l es) (hp : s.policy = .respond) (hq : Queued s es)
    (hb : Balanced s es) (ho : (s.after es).Orderly) (hmoves : (s.after es).AllMoves)
    (ha : (s.after es).aborted = false) (hcrash : s.shown crashedSearches es = []) (e : Event) :
    Accounted s l (es ++ [e]) := by
  have hc := change_step ha e
  have hs' := after_concat s es e
  generalize hout : (s.after es).step e = out at hc hs'
  cases hc with
  | idle hidle =>
    refine h.silent (made_of_step hout (by simp)) (visits_of_silent ?_ fun id => ?_) (by rw [hs'])
      (by rw [hs']) fun _ _ hid _ => by rwa [hs'] at hid
    · rcases entering_eq (s.after es) e with hnone | ⟨id, t, rfl, -, ht, hw, -⟩
      · exact hnone
      · exact absurd hw (hidle t ht).1
    · cases e with
      | returned j r =>
        refine if_neg fun ⟨he, hcall⟩ => ?_
        subst he
        unfold stage? at hcall
        cases ht : (s.after es).tasks[j]? with
        | none => simp [ht] at hcall
        | some t => simp [ht, hidle t ht] at hcall
      | start | run | completed | hangUp => rfl
  | arrived job =>
    refine h.silent (made_of_step hout (by simp)) (visits_of_silent rfl fun _ => rfl) (by rw [hs'])
      (by rw [hs']) fun id stage hid hin => ?_
    rw [hs', stage?_arrive] at hid
    split at hid
    · cases hid
      cases hin
    · exact hid
  | completed c =>
    refine h.silent (made_of_step hout fun _ _ hcall => ?_) (visits_of_silent rfl fun _ => rfl)
      (by rw [hs']) (by rw [hs', Handoff.issued_fulfill]) fun _ _ hid _ => by rwa [hs'] at hid
    simp only at hcall
    split at hcall <;> cases hcall
  | queued ht hw hp =>
    refine h.silent (made_of_step hout (by simp)) (visits_of_silent ?_ fun _ => rfl) (by rw [hs'])
      (by rw [hs']) fun _ _ hid _ => by rwa [hs'] at hid
    simp [entering, asking_of_waiting ha ht hw, hp]
  | entered ht hw hp => exact h.entered ho hmoves ha ht hw hp
  | @passed _ id t r turn he ht hpass =>
    have hid := stage?_of_task ht
    cases r with
    | none =>
      subst he
      exact h.told hp ho ht hpass hout
    | some r =>
      subst he
      -- Only the outstanding call can come back, so the block of the request grows or ends here.
      obtain ⟨c, hc⟩ : ∃ c, t.stage.call? = some c := by
        generalize t.stage = stage at hpass
        cases hpass with
        | plain registry hin hno => exact call?_of_inside hin hno
        | armed | refused | submitted | withdrawn | crashed => exact ⟨_, rfl⟩
      by_cases hr : r = .ok
      · subst hr
        exact h.returned_ok hq ho hmoves ha ht hc
          (armed_of_no_search hb hcrash ho hid hpass.inside)
      · exact h.returned_failed hq ho hmoves ha ht hc hr

end Step

/-! ## Every run of requests -/

/-- A service that nobody has called; some engines may be there already. -/
def opened (settings : EngineSettings) (table : Table) (registry : Registry) : Service :=
  { new settings table .respond with registry }

/-- The ledger before the first call. -/
def ledger (registry : Registry) : Ledger := ⟨registry.entries.map (·.model), 0⟩

section Run

variable {settings : EngineSettings} {table : Table} {registry : Registry} {es : List Event}

theorem stage?_opened (id : TaskId) : (opened settings table registry).stage? id = none := by
  simp [opened, new, stage?]

theorem orderly_opened : (opened settings table registry).Orderly := by
  intro id stage h
  rw [stage?_opened] at h
  cases h

theorem tidy_opened (es : List Event) : Tidy (opened settings table registry) es := by
  induction es using List.reverseRecOn with
  | nil =>
    refine ⟨fun _ => ⟨fun n hn => ?_, fun n hn => absurd hn (not_stranded_nil _ n),
      fun n m hn => absurd hn (not_stranded_nil _ n)⟩, fun ha => ?_, fun id n hn => ?_⟩
    · cases hn
    · cases ha
    · rw [ToldArmed, result?_eq_some, after_nil, stage?_opened] at hn
      cases hn
  | append_singleton es e ih =>
    exact ih.step (orderly_after orderly_opened es) (sound_after Handoff.sound_new es) e

theorem allMoves_opened
    (hmoves : ∀ job, .start job ∈ es → ∃ fen difficulty, job = .move fen difficulty) :
    ((opened settings table registry).after es).AllMoves := by
  intro job hjob
  rcases start_mem_of_job hjob with hold | hnew
  · cases hold
  · exact hmoves job hnew

theorem accounted_opened
    (hmoves : ∀ job, .start job ∈ es → ∃ fen difficulty, job = .move fen difficulty)
    (hcrash : (opened settings table registry).shown crashedSearches es = []) :
    Accounted (opened settings table registry) (ledger registry) es := by
  induction es using List.reverseRecOn with
  | nil =>
    refine ⟨rfl, ⟨rfl, rfl⟩, rfl, fun id stage hid => ?_⟩
    rw [after_nil, stage?_opened] at hid
    cases hid
  | append_singleton es e ih =>
    have hearlier : ∀ job, .start job ∈ es → ∃ fen difficulty, job = .move fen difficulty :=
      fun job hjob => hmoves job (List.mem_append_left _ hjob)
    rw [shown_concat, List.append_eq_nil_iff] at hcrash
    have ha : ((opened settings table registry).after es).aborted = false := going_after rfl rfl es
    exact (ih hearlier hcrash.1).step rfl (queued_after orderly_opened rfl es)
      ((tidy_opened es).balanced ha) (orderly_after orderly_opened es) (allMoves_opened hearlier)
      ha hcrash.1 e

/-- What a run of requests says about the calls to the engines. -/
structure SerialAccount (settings : EngineSettings) (table : Table) (registry : Registry)
    (es : List Event) : Prop where
  /-- Requests are let in in the order in which they first asked. -/
  order : (opened settings table registry).admitted es <+: (opened settings table registry).asked es
  /-- Every task that is let in has one visit, for its own request. -/
  visits : ((opened settings table registry).visits es).map (·.request.task) =
    (opened settings table registry).admitted es
  requests : ∀ v ∈ (opened settings table registry).visits es,
    ((opened settings table registry).after es).job? v.request.task =
      some (.move v.request.fen v.request.difficulty)
  /-- The calls are those of serving the requests one after another. -/
  calls : ((opened settings table registry).steps es).2 =
    serve settings table (ledger registry) ((opened settings table registry).visits es)
  /-- When a request is let in, the blocks before its own are complete, and the engines that are
  ready are those which these blocks have left behind. -/
  entered : ∀ xs id ys, es = xs ++ .run id :: ys →
    ((opened settings table registry).after xs).entering (.run id) = [id] →
    ∃ before v later, (opened settings table registry).visits es = before ++ v :: later ∧
      v.request.task = id ∧
      ((opened settings table registry).steps xs).2 =
        serve settings table (ledger registry) before ∧
      ∀ model, model ∈
          ((ledger registry).after (serve settings table (ledger registry) before)).ready ↔
        ((opened settings table registry).after xs).registry.contains model = true
  /-- The searches are numbered from one on. -/
  numbers : ∃ count, searches ((opened settings table registry).steps es).2 = firstNumbers count

/-- While a visit is not the last one, no call of it is outstanding. -/
theorem Accounted.returns_of_earlier {s : Service} {l : Ledger} (h : Accounted s l es)
    (hq : Queued s es) (hmoves : (s.after es).AllMoves) {before later : List Visit} {v u : Visit}
    (hv : s.visits es = before ++ v :: later) (hu : u ∈ before) (e : Event) :
    returns u.request.task (s.after es) e = [] := by
  cases e with
  | returned j r =>
    refine if_neg ?_
    rintro ⟨rfl, hcall⟩
    obtain ⟨stage, hstage, hcall⟩ := Option.bind_eq_some_iff.1 (Option.eq_some_of_isSome hcall)
    obtain ⟨before', v', hv', htask, -⟩ :=
      h.serving _ stage hstage (Stage.isInside_of_call? hcall)
    have hlast : v' ∈ v :: later := by
      have hsome := congrArg List.getLast? (hv.symm.trans hv')
      rw [List.getLast?_append_of_ne_nil _ (List.cons_ne_nil v later), List.getLast?_concat]
        at hsome
      exact List.mem_of_getLast? hsome
    have hnodup := hq.nodup
    rw [← visits_task hmoves, hv, List.map_append, List.nodup_append] at hnodup
    exact hnodup.2.2 _ (List.mem_map_of_mem hu) _ (List.mem_map_of_mem hlast) htask.symm
  | start | run | completed | hangUp => rfl

/-- The visits before a request do not change any more once it has been let in. -/
theorem Accounted.visits_step {s : Service} {l : Ledger} (h : Accounted s l es)
    (hq : Queued s es) (hmoves : (s.after es).AllMoves) {before later : List Visit} {v : Visit}
    (hv : s.visits es = before ++ v :: later) (e : Event) :
    ∃ v' later', s.visits (es ++ [e]) = before ++ v' :: later' ∧ v'.request = v.request := by
  have hmap : ∀ rs : List Request, (rs.map fun r => (⟨r, s.shown (returns r.task) es ++
      returns r.task (s.after es) e⟩ : Visit)) =
      (rs.map fun r => (⟨r, s.shown (returns r.task) es⟩ : Visit)).map fun u =>
        ⟨u.request, u.results ++ returns u.request.task (s.after es) e⟩ := fun rs => by
    rw [List.map_map]
    rfl
  have hkeep : before.map (fun u : Visit =>
      (⟨u.request, u.results ++ returns u.request.task (s.after es) e⟩ : Visit)) = before := by
    refine (List.map_congr_left fun u hu => ?_).trans (List.map_id _)
    rw [h.returns_of_earlier hq hmoves hv hu, List.append_nil, id_eq]
  rw [visits_concat, List.map_append, hmap, ← visits, hv, List.map_append, hkeep, List.map_cons,
    List.append_assoc, List.cons_append]
  exact ⟨_, _, rfl, rfl⟩

theorem mem_ready_iff {s : Service} {l : Ledger} (h : Kept s l) (model : String) :
    model ∈ l.ready ↔ s.registry.contains model = true := by
  rw [← h.ready, Registry.contains, ← Option.ne_none_iff_isSome, Ne, find?_eq_none, not_not]

theorem visits_of_entered {xs ys : List Event} {id : TaskId}
    (hmoves : ∀ job, .start job ∈ xs ++ .run id :: ys →
      ∃ fen difficulty, job = .move fen difficulty)
    (hcrash : (opened settings table registry).shown crashedSearches (xs ++ .run id :: ys) = [])
    (hid : ((opened settings table registry).after xs).entering (.run id) = [id]) :
    ∃ v later, (opened settings table registry).visits (xs ++ .run id :: ys) =
      (opened settings table registry).visits xs ++ v :: later ∧ v.request.task = id := by
  induction ys using List.reverseRecOn with
  | nil =>
    obtain ⟨t, -, ht, hw, -⟩ := exists_waiting_of_entering hid
    have hall : ((opened settings table registry).after xs).AllMoves :=
      allMoves_opened fun job hjob => hmoves job (List.mem_append_left _ hjob)
    obtain ⟨fen, difficulty, -, hr⟩ := hall.job_eq ht
    exact ⟨_, [], visits_of_entering hid hr (not_hasEntered_of_waiting ht hw), rfl⟩
  | append_singleton ys e ih =>
    have hsplit : xs ++ .run id :: (ys ++ [e]) = (xs ++ .run id :: ys) ++ [e] := by simp
    rw [hsplit] at hmoves hcrash ⊢
    have hearlier := fun job hjob => hmoves job (List.mem_append_left [e] hjob)
    rw [shown_concat, List.append_eq_nil_iff] at hcrash
    obtain ⟨v, later, hv, htask⟩ := ih hearlier hcrash.1
    obtain ⟨v', later', hv', hrequest⟩ :=
      (accounted_opened hearlier hcrash.1).visits_step (queued_after orderly_opened rfl _)
        (allMoves_opened hearlier) hv e
    exact ⟨v', later', hv', hrequest ▸ htask⟩

/-- The calls of a run of requests come in blocks, one for each request that was let in. -/
theorem calls_eq_serve (settings : EngineSettings) (table : Table) (registry : Registry)
    (es : List Event)
    (hmoves : ∀ job, .start job ∈ es → ∃ fen difficulty, job = .move fen difficulty)
    (hcrash : (opened settings table registry).shown crashedSearches es = []) :
    SerialAccount settings table registry es := by
  have h := accounted_opened hmoves hcrash
  have hall : ((opened settings table registry).after es).AllMoves := allMoves_opened hmoves
  refine ⟨admitted_isPrefix_asked orderly_opened rfl es, visits_task hall, ?_, h.calls, ?_,
    ⟨_, h.numbered⟩⟩
  · intro v hv
    obtain ⟨r, hr, rfl⟩ := List.mem_map.1 hv
    exact mem_requests hr
  · rintro xs id ys rfl hid
    obtain ⟨v, later, hv, htask⟩ := visits_of_entered hmoves hcrash hid
    have hcrash' : (opened settings table registry).shown crashedSearches xs = [] := by
      rw [shown, observe_append] at hcrash
      exact (List.append_eq_nil_iff.1 hcrash).1
    have hxs := accounted_opened (fun job hjob => hmoves job (List.mem_append_left _ hjob)) hcrash'
    refine ⟨_, v, later, hv, htask, hxs.calls, ?_⟩
    have hkept := hxs.kept
    rw [hxs.calls] at hkept
    exact mem_ready_iff hkept

end Run

/-- Three requests come at once. The first cannot set its engine up, the second has it ready and
crashes as its game starts, and the third finds the engine ready and fails over a stray
completion. -/
def crowdedRun : List Event :=
  [.start bareKings, .start bareKings, .start bareKings, .run 0, .run 1, .run 2, .returned 0 .ok,
    .hangUp 1, .returned 0 (.failed ["unknown option"]), .completed ⟨none, .noLegalMove⟩, .run 2,
    .run 1] ++ List.replicate 4 (.returned 1 .ok) ++
  [.returned 1 (.crashed "boom"), .run 2, .returned 2 .ok, .returned 2 .ok,
    .completed ⟨none, .noLegalMove⟩, .returned 2 .ok, .run 2]

/-- The requests of the run make two, five and three calls. -/
theorem blocks_of_crowdedRun :
    (∀ job, .start job ∈ crowdedRun → ∃ fen difficulty, job = .move fen difficulty) ∧
      (opened .stock .stock .empty).shown crashedSearches crowdedRun = [] ∧
      ((opened .stock .stock .empty).visits crowdedRun).map (·.results.length) = [2, 5, 3] ∧
      SerialAccount .stock .stock .empty crowdedRun := by
  have hmoves : ∀ job, .start job ∈ crowdedRun → ∃ fen difficulty, job = .move fen difficulty := by
    intro job hjob
    simp only [crowdedRun, List.replicate, List.mem_append, List.mem_cons, List.not_mem_nil,
      Event.start.injEq, reduceCtorEq, or_false, or_self] at hjob
    subst hjob
    exact ⟨_, _, rfl⟩
  have hcrash : (opened .stock .stock .empty).shown crashedSearches crowdedRun = [] := rfl
  exact ⟨hmoves, hcrash, rfl, calls_eq_serve .stock .stock .empty crowdedRun hmoves hcrash⟩

end Sparring.Service
