import Sparring.Proofs.Service.Cache
import Sparring.Proofs.Service.Preloading

/-!
# What a preload is good for

After a preload that has succeeded, the registry has all models of the table, and it keeps them.
Every difficulty resolves to one of them, so no task that goes by the table sets up an engine any
more, whatever else goes on. A preload that has not succeeded has come as far as some model: it
leaves the models before that one, and that one if no game could be started on it. In either case it
creates only models that it has found missing, so the next one goes on where it has stopped.

`preload_account` says so of every run. It joins the course of a preload (`Preloading`) with what is
known of the registry at all times (`Stocked`), by way of the moment at which a task finishes:
nobody has been let in since (`exists_return`).
-/

namespace Sparring

/-- Whether a call is one of those that set up an engine. -/
def EngineCall.SetsUp : EngineCall → Prop
  | create _ | setOption .. => True
  | newGame _ | setPosition .. | go .. => False

/-- The models of a table that a registry does not have. -/
def Table.missing (t : Table) (r : Registry) : List String :=
  t.models.filter fun model => !r.contains model

namespace Service

/-! ## Tasks that are let in -/

/-- Whether a task with a job was let in after `xs`. -/
structure LetIn (s : Service) (es xs : List Event) (id : TaskId) (job : Job) : Prop where
  split : ∃ ys, es = xs ++ .run id :: ys
  entering : (s.after xs).entering (.run id) = [id]
  job_eq : (s.after xs).job? id = some job

section Untouched

variable {s : Service} {es : List Event} {id : TaskId} {r : JobResult}

theorem Untouched.stocked (hs : s.Untouched) : s.Stocked := by
  refine ⟨?_, fun id p rest setup hid => ?_⟩
  · rw [hs.empty]
    exact List.nodup_nil
  · cases (hs.stage?_eq id).symm.trans hid

theorem Untouched.exists_letIn (hs : s.Untouched) {job : Job}
    (hjob : (s.after es).job? id = some job) (h : (s.after es).HasEntered id) :
    ∃ xs, LetIn s es xs id job := by
  obtain ⟨xs, e, ys, rfl, hmem⟩ := mem_observe.1 (hs.mem_admitted h)
  rw [foldl_step] at hmem
  rcases entering_eq (s.after xs) e with hnone | ⟨j, t, rfl, -, ht, -, -, hone⟩
  · rw [hnone] at hmem
    cases hmem
  · rw [hone, List.mem_singleton] at hmem
    subst hmem
    exact ⟨xs, ⟨ys, rfl⟩, hone, job?_of_append (stage?_of_task ht) hjob⟩

/-- A task that finishes was let in last. -/
theorem Untouched.getLast?_of_finishes (hs : s.Untouched) {e : Event}
    (hbefore : (s.after es).result? id = none) (h : (s.after (es ++ [e])).result? id = some r) :
    (s.admitted (es ++ [e])).getLast? = some id := by
  have hentered : ((s.after es).step e).1.HasEntered id := by
    rw [← after_concat]
    exact ⟨_, result?_eq_some.1 h, Stage.noConfusion⟩
  rw [admitted_concat]
  rcases hasEntered_of_step hentered with ⟨stage, hstage, hne⟩ | hone
  · have hin : stage.isInside = true := by
      cases stage with
      | waiting => exact absurd rfl hne
      | finished r' => cases hbefore.symm.trans (result?_eq_some.2 hstage)
      | setup | startingGame | positioning | submitting | thinking => rfl
    have hacc := orderly_after hs.orderly es id stage hstage hin
    rcases entering_eq (s.after es) e with hnone | ⟨j, _, -, -, -, -, hp, hone⟩
    · rw [hnone, List.append_nil]
      exact (hs.queued es).last id hacc
    · rw [hone, List.getLast?_concat, Visitor.task.inj (Gate.eq_of_poll hp hacc)]
  · rw [hone, List.getLast?_concat]

/-- When a task has finished there was a moment at which it had and nobody had been let in since. -/
theorem Untouched.exists_return (hs : s.Untouched) (h : (s.after es).result? id = some r) :
    ∃ xs ys, es = xs ++ ys ∧ (s.after xs).result? id = some r ∧
      (s.admitted xs).getLast? = some id := by
  induction es using List.reverseRecOn with
  | nil => cases (hs.stage?_eq id).symm.trans (result?_eq_some.1 h)
  | append_singleton es e ih =>
    cases hbefore : (s.after es).result? id with
    | none =>
      exact ⟨es ++ [e], [], (List.append_nil _).symm, h, hs.getLast?_of_finishes hbefore h⟩
    | some r' =>
      have hlater := result?_after hbefore [e]
      rw [← after_append, h] at hlater
      cases hlater
      obtain ⟨xs, ys, rfl, hxs, hlast⟩ := ih hbefore
      exact ⟨xs, ys ++ [e], List.append_assoc _ _ _, hxs, hlast⟩

end Untouched

section LetIn

variable {s : Service} {es xs : List Event} {id : TaskId}

theorem LetIn.preloading (h : LetIn s es xs id .preload) (hs : s.Untouched) :
    Preloading s (s.after xs).registry id es := by
  obtain ⟨ys, rfl⟩ := h.split
  exact preloading_after hs.orderly hs.free h.entering h.job_eq

/-- A task that asks which models there are is told at once. -/
theorem LetIn.listed (h : LetIn s es xs id .listModels) :
    (s.after es).result? id = some (.models (s.after xs).registry.models) := by
  obtain ⟨ys, rfl⟩ := h.split
  have hstage := (stands_entered h.entering h.job_eq).stage_eq
  have hsplit : xs ++ .run id :: ys = (xs ++ [.run id]) ++ ys := by simp
  rw [hsplit, after_append]
  exact result?_after (result?_eq_some.2 hstage) ys

end LetIn

/-! ## The calls of a preload -/

/-- The models whose engines are created by a row of calls. -/
def createdModels (calls : List EngineCall) : List String :=
  calls.filterMap fun c =>
    match c with
    | .create model => some model
    | _ => none

theorem createdModels_preloadCalls (settings : EngineSettings) (r : Registry) (ps : List Profile) :
    createdModels (preloadCalls settings r ps) =
      (ps.map (·.model)).filter fun model => !r.contains model := by
  have happend : ∀ xs ys, createdModels (xs ++ ys) = createdModels xs ++ createdModels ys :=
    fun _ _ => List.filterMap_append
  induction ps with
  | nil => rfl
  | cons p ps ih =>
    have hsplit : preloadCalls settings r (p :: ps) =
        engineCalls settings r p ++ ([.newGame p.model] ++ preloadCalls settings r ps) := by
      simp [preloadCalls]
    have hnewGame : createdModels [.newGame p.model] = [] := rfl
    rw [hsplit, happend, happend, ih, hnewGame, List.nil_append, List.map_cons, List.filter_cons]
    unfold engineCalls
    cases r.contains p.model <;> rfl

theorem reached_isPrefix (calls : List EngineCall) (results : List CallResult) :
    reached calls results <+: calls := by
  induction calls generalizing results with
  | nil => exact List.prefix_refl _
  | cons c calls ih =>
    have hone : [c] <+: c :: calls := List.prefix_append [c] calls
    rcases results with _ | ⟨_ | _ | _, results⟩
    · exact hone
    · exact (List.prefix_cons_inj c).2 (ih results)
    · exact hone
    · exact hone

section Preloading

variable {s : Service} {es : List Event} {id : TaskId} {r : Registry}

/-- What a preload has before it when it has made some of the calls for a model. -/
theorem preloadCalls_split {done rest : List Profile} {p : Profile}
    {made ahead : List EngineCall} (hsplit : s.table.distinctModels = done ++ p :: rest)
    (h : engineCalls s.settings r p ++ [.newGame p.model] = made ++ ahead) :
    preloadCalls s.settings r s.table.distinctModels =
      (preloadCalls s.settings r done ++ made) ++ (ahead ++ preloadCalls s.settings r rest) := by
  have hmodels : done ++ p :: rest = (done ++ [p]) ++ rest := by simp
  rw [hsplit, hmodels, preloadCalls_append, preloadCalls_concat, List.append_assoc _ _ [_], h]
  simp only [List.append_assoc]

/-- A preload makes its calls in order, each when the one before it has succeeded. -/
theorem Preloading.calls_eq (h : Preloading s r id es) : s.shown (calling id) es =
    reached (preloadCalls s.settings r s.table.distinctModels) (s.shown (taking id) es) := by
  cases h with
  | @configuring done rest p setup made hsplit hmissing _ hmade hst =>
    have hcalls : engineCalls s.settings r p ++ [.newGame p.model] =
        made ++ (setup.ahead s.settings p ++ [.newGame p.model]) := by
      rw [engineCalls_of_missing hmissing, hmade, List.append_assoc]
    rw [hst.calls_eq, hst.results_eq, preloadCalls_split hsplit hcalls, reached_of_ok]
    cases setup <;> rfl
  | starting hsplit hst =>
    rw [hst.calls_eq, hst.results_eq, preloadCalls_split hsplit rfl, reached_of_ok]
    rfl
  | complete hst =>
    have hall := reached_of_ok (preloadCalls s.settings r s.table.distinctModels) []
    rw [List.append_nil, List.take_nil, List.append_nil] at hall
    rw [hst.calls_eq, hst.results_eq, hall]
  | halted hsplit hnot hcalls hst =>
    rw [hst.calls_eq, hst.results_eq, preloadCalls_split hsplit hcalls, List.cons_append,
      reached_of_failed _ _ _ hnot]

/-- It creates engines of missing models only. -/
theorem Preloading.creates_missing (h : Preloading s r id es) :
    createdModels (s.shown (calling id) es) <+: s.table.missing r := by
  have hall : createdModels (preloadCalls s.settings r s.table.distinctModels) =
      s.table.missing r := createdModels_preloadCalls _ _ _
  rw [h.calls_eq, ← hall]
  exact (reached_isPrefix _ _).filterMap _

theorem Preloading.of_succeeded (h : Preloading s r id es)
    (hok : (s.after es).result? id = some (.preloaded (.ok ()))) :
    Stands s es id (.finished (.preloaded (.ok ())))
      (preloadCalls s.settings r s.table.distinctModels)
      (.replicate (preloadCalls s.settings r s.table.distinctModels).length .ok)
      (r.supplyAll s.settings s.table.distinctModels) := by
  have hstage := result?_eq_some.1 hok
  cases h with
  | complete hst => exact hst
  | configuring _ _ _ _ hst | starting _ hst => cases hstage.symm.trans hst.stage_eq
  | @halted _ _ _ _ _ c result _ hnot _ hst =>
    have hresult := hstage.symm.trans hst.stage_eq
    cases result with
    | ok => exact absurd rfl hnot
    | failed | crashed => cases hresult

end Preloading

/-! ## After a preload has succeeded -/

section Loaded

variable {s : Service} {es : List Event} {id : TaskId}

/-- The models of the table are there from the moment a preload has succeeded. -/
theorem Untouched.contains_of_preloaded (hs : s.Untouched)
    (hjob : (s.after es).job? id = some .preload)
    (hok : (s.after es).result? id = some (.preloaded (.ok ()))) {model : String}
    (hmodel : model ∈ s.table.models) : (s.after es).registry.contains model = true := by
  obtain ⟨xs, ys, rfl, hxs, hlast⟩ := hs.exists_return hok
  have hstage := result?_eq_some.1 hxs
  obtain ⟨zs, hin⟩ := hs.exists_letIn (job?_of_append hstage hjob) ⟨_, hstage, Stage.noConfusion⟩
  have hst := (hin.preloading hs).of_succeeded hxs
  have hthere : (s.after xs).registry.contains model = true := by
    rw [hst.registry_eq hlast]
    exact Registry.contains_supplyAll.2 (Or.inr hmodel)
  rw [after_append]
  exact contains_after (orderly_after hs.orderly xs) hthere ys

/-- With all models of the table there, no task that goes by the table sets up an engine. -/
theorem Untouched.not_setup_of_loaded (hs : s.Untouched)
    (hall : ∀ model ∈ s.table.models, (s.after es).registry.contains model = true) {job : Job}
    (hjob : (s.after es).job? id = some job) (htable : job.ByTable) {p : Profile}
    {rest : List Profile} {setup : Setup} :
    (s.after es).stage? id ≠ some (.setup p rest setup) := by
  intro hid
  have hneeds := model_mem_of_stage (hs.stage?_eq id) hjob hid List.mem_cons_self
  have hthere := hall _ (Job.models_subset htable s.table hneeds)
  have hmissing := (stocked_after hs.orderly hs.stocked es).missing id p rest setup hid
  rw [Registry.contains, hmissing] at hthere
  cases hthere

theorem call_of_mem_calling {e : Event} {c : EngineCall} (h : c ∈ calling id s e) :
    (s.step e).2 = some (.call id c) := by
  unfold calling at h
  split at h
  next j c' hcall =>
    split at h
    next hj =>
      rw [List.mem_singleton] at h
      rw [hcall, hj, h]
    next => cases h
  next => cases h

theorem setup_of_setsUp {stage : Stage} {c : EngineCall} (h : stage.call? = some c)
    (hc : c.SetsUp) : ∃ p rest setup, stage = .setup p rest setup := by
  cases stage with
  | setup p rest setup => exact ⟨p, rest, setup, rfl⟩
  | startingGame | positioning | submitting =>
    cases h
    exact hc.elim
  | waiting | thinking | finished => cases h

/-- After a preload has succeeded, no task that goes by the table makes a call that sets up an
engine. -/
theorem Untouched.not_setsUp_of_preloaded (hs : s.Untouched) {xs ys : List Event}
    (hjob : (s.after xs).job? id = some .preload)
    (hok : (s.after xs).result? id = some (.preloaded (.ok ()))) {j : TaskId} {job : Job}
    (hj : (s.after (xs ++ ys)).job? j = some job) (htable : job.ByTable) {c : EngineCall}
    (hc : c ∈ (s.after xs).shown (calling j) ys) : ¬c.SetsUp := by
  intro hsets
  obtain ⟨before, e, later, rfl, hcall⟩ := mem_observe.1 hc
  rw [foldl_step, ← after_append] at hcall
  obtain ⟨stage, hstage, hstagecall⟩ := stage?_of_call (call_of_mem_calling hcall)
  obtain ⟨p, rest, setup, rfl⟩ := setup_of_setsUp hstagecall hsets
  rw [← after_concat] at hstage
  have hall : ∀ model ∈ s.table.models,
      (s.after (xs ++ before ++ [e])).registry.contains model = true := by
    intro model hmodel
    have hthere := hs.contains_of_preloaded hjob hok hmodel
    rw [List.append_assoc, after_append]
    exact contains_after (orderly_after hs.orderly xs) hthere _
  have hsplit : xs ++ (before ++ e :: later) = (xs ++ before ++ [e]) ++ later := by simp
  rw [hsplit] at hj
  exact hs.not_setup_of_loaded hall (job?_of_append hstage hj) htable hstage

/-- A model is there because the table has it, or a task has come for it that does not go by the
table. -/
theorem Untouched.exists_start_of_contains (hs : s.Untouched) {model : String}
    (h : (s.after es).registry.contains model = true) : model ∈ s.table.models ∨
      ∃ job, .start job ∈ es ∧ ¬job.ByTable ∧ model ∈ job.models s.table := by
  rcases exists_job_of_contains hs.orderly hs.stage?_eq h with hstart | ⟨job, hjob, hmodel⟩
  · rw [Registry.contains_iff, hs.empty] at hstart
    cases hstart
  · by_cases htable : job.ByTable
    · exact Or.inl (Job.models_subset htable s.table hmodel)
    · refine Or.inr ⟨job, (start_mem_of_job hjob).resolve_left fun hstart => ?_, htable, hmodel⟩
      rw [jobs, hs.idle] at hstart
      cases hstart

/-- Which models a registry has settles how it tells them. -/
theorem models_eq_mergeSort {registry : Registry}
    (hunique : (registry.entries.map (·.model)).Nodup) {names : List String}
    (hnames : names.Nodup) (h : ∀ model, registry.contains model = true ↔ model ∈ names) :
    registry.models = names.mergeSort fun a b => decide (a ≤ b) := by
  have hsame : (registry.entries.map (·.model)).Perm names :=
    (List.perm_ext_iff_of_nodup hunique hnames).2 fun model => by
      rw [← h, Registry.contains_iff]
  have hsorted := List.mergeSort_perm names fun a b => decide (a ≤ b)
  have hperm := (models_perm registry).trans (hsame.trans hsorted.symm)
  exact hperm.eq_of_pairwise (fun _ _ _ _ hab hba => String.le_antisymm hab hba)
    (pairwise_le_mergeSort _) (pairwise_le_mergeSort names)

end Loaded

/-! ## After a preload has not succeeded -/

/-- Whether a preload that was let in after `xs` has come as far as the call `c` for `p`, having
made some calls for `p` before, and what it has left behind. -/
structure Halts (s : Service) (es xs : List Event) (id : TaskId) (before : List Profile)
    (p : Profile) (made : List EngineCall) (c : EngineCall) : Prop where
  split : ∃ later, s.table.distinctModels = before ++ p :: later
  /-- The call is one of those for `p`: a call of the setup if the engine was missing, or the start
  of a game. -/
  own : made ++ [c] <+: engineCalls s.settings (s.after xs).registry p ++ [.newGame p.model]
  /-- All models before `p` have got their calls. -/
  calls : s.shown (calling id) es =
    preloadCalls s.settings (s.after xs).registry before ++ made ++ [c]
  /-- The models are those that were there, those before `p`, and `p` itself if it was only the game
  that could not be started. -/
  models : ∀ model, model ∈ (s.after es).registry.models ↔
    model ∈ (s.after xs).registry.models ∨ model ∈ before.map (·.model) ∨
      model = p.model ∧ c = .newGame p.model

section Halted

variable {s : Service} {es xs : List Event} {id : TaskId} {r : JobResult}

theorem not_setsUp_newGame {settings : EngineSettings} {registry : Registry} {p : Profile}
    {made ahead : List EngineCall} {c : EngineCall}
    (h : engineCalls settings registry p ++ [.newGame p.model] = made ++ c :: ahead) :
    ahead = [] ↔ c = .newGame p.model := by
  have hsets : ∀ c ∈ engineCalls settings registry p, c ≠ .newGame p.model := by
    intro c hc
    unfold engineCalls at hc
    split at hc
    · cases hc
    · simp only [setupCalls, List.mem_cons, List.not_mem_nil, or_false] at hc
      rcases hc with rfl | rfl | rfl | rfl <;> exact EngineCall.noConfusion
  rcases List.eq_nil_or_concat ahead with rfl | ⟨rest, last, rfl⟩
  · exact ⟨fun _ => (List.append_singleton_inj.1 h).2.symm, fun _ => rfl⟩
  · have hsplit : made ++ c :: rest.concat last = (made ++ c :: rest) ++ [last] := by simp
    have hmem : c ∈ engineCalls settings registry p := by
      rw [(List.append_singleton_inj.1 (h.trans hsplit)).1]
      exact List.mem_append_right _ List.mem_cons_self
    refine ⟨fun hnil => ?_, fun hc => absurd hc (hsets c hmem)⟩
    rw [List.concat_eq_append] at hnil
    exact absurd hnil (List.concat_ne_nil _ _)

theorem LetIn.halts (h : LetIn s es xs id .preload) (hs : s.Untouched)
    (hr : (s.after es).result? id = some r) (hnot : r ≠ .preloaded (.ok ()))
    (hlast : (s.admitted es).getLast? = some id) :
    ∃ before p made c result, Halts s es xs id before p made c ∧ result ≠ .ok ∧
      s.shown (taking id) es = .replicate
        (preloadCalls s.settings (s.after xs).registry before ++ made).length .ok ++ [result] ∧
      r = preloadResult c result := by
  have hstage := result?_eq_some.1 hr
  cases h.preloading hs with
  | configuring _ _ _ _ hst | starting _ hst => cases hstage.symm.trans hst.stage_eq
  | complete hst =>
    cases hstage.symm.trans hst.stage_eq
    exact absurd rfl hnot
  | @halted before rest p made ahead c result hsplit hbad hcalls hst =>
    cases hstage.symm.trans hst.stage_eq
    refine ⟨before, p, made, c, result, ⟨⟨rest, hsplit⟩, ⟨ahead, ?_⟩, hst.calls_eq, ?_⟩, hbad,
      hst.results_eq, rfl⟩
    · rw [hcalls, List.append_assoc, List.singleton_append]
    · intro model
      rw [Registry.mem_models, Registry.mem_models, hst.registry_eq hlast,
        Registry.contains_supplyAll, ← not_setsUp_newGame hcalls]
      split
      next hnil => simp [hnil]
      next hcons => simp [hcons]

end Halted

/-! ## The account -/

/-- What a run says about its preloads. -/
structure PreloadAccount (s : Service) (es : List Event) : Prop where
  /-- A task that has a result has been let in. -/
  entered : ∀ id job r, (s.after es).job? id = some job → (s.after es).result? id = some r →
    ∃ xs, LetIn s es xs id job
  /-- It has got the result at a moment at which nobody had been let in since. -/
  finished : ∀ id r, (s.after es).result? id = some r → ∃ xs ys, es = xs ++ ys ∧
    (s.after xs).result? id = some r ∧ (s.admitted xs).getLast? = some id
  /-- A preload makes its calls in the order of the table, as far as they succeed. -/
  calls : ∀ xs id, LetIn s es xs id .preload → s.shown (calling id) es =
    reached (preloadCalls s.settings (s.after xs).registry s.table.distinctModels)
      (s.shown (taking id) es)
  /-- It creates only models that it finds missing, each of them once. -/
  creates : ∀ xs id, LetIn s es xs id .preload →
    createdModels (s.shown (calling id) es) <+: s.table.missing (s.after xs).registry
  /-- If it succeeds, it creates all of them. -/
  created : ∀ xs id, LetIn s es xs id .preload →
    (s.after es).result? id = some (.preloaded (.ok ())) →
    createdModels (s.shown (calling id) es) = s.table.missing (s.after xs).registry
  /-- From then on, no task that goes by the table makes a call that sets up an engine, whatever its
  difficulty and whatever other tasks do. -/
  quiet : ∀ xs ys id, es = xs ++ ys → (s.after xs).job? id = some .preload →
    (s.after xs).result? id = some (.preloaded (.ok ())) →
    ∀ j job, (s.after es).job? j = some job → job.ByTable →
    ∀ c ∈ (s.after xs).shown (calling j) ys, ¬c.SetsUp
  /-- All models of the table are there from then on. -/
  loaded : ∀ id, (s.after es).job? id = some .preload →
    (s.after es).result? id = some (.preloaded (.ok ())) →
    ∀ row ∈ s.table.rows, row.profile.model ∈ (s.after es).registry.models
  /-- Any other is there because a task has come for it that does not go by the table. -/
  others : ∀ model ∈ (s.after es).registry.models, model ∈ s.table.models ∨
    ∃ job, .start job ∈ es ∧ ¬job.ByTable ∧ model ∈ job.models s.table
  /-- As long as all tasks go by the table, the models are exactly those of the table. -/
  models : ∀ id, (s.after es).job? id = some .preload →
    (s.after es).result? id = some (.preloaded (.ok ())) →
    (∀ job, .start job ∈ es → job.ByTable) →
    (s.after es).registry.models = s.table.models.mergeSort fun a b => decide (a ≤ b)
  /-- A preload that ends with an error or a crash has halted at a call that has come back so, and
  all calls before have succeeded. -/
  halted : ∀ xs id r, LetIn s es xs id .preload → (s.after es).result? id = some r →
    r ≠ .preloaded (.ok ()) → (s.admitted es).getLast? = some id →
    ∃ before p made c result, Halts s es xs id before p made c ∧ result ≠ .ok ∧
      s.shown (taking id) es = .replicate
        (preloadCalls s.settings (s.after xs).registry before ++ made).length .ok ++ [result] ∧
      r = preloadResult c result
  /-- What has been loaded stays. -/
  kept : ∀ xs ys, es = xs ++ ys → (s.after xs).registry.models ⊆ (s.after es).registry.models
  /-- Whoever asks for the models is told those that are there. -/
  listed : ∀ xs id, LetIn s es xs id .listModels →
    (s.after es).result? id = some (.models (s.after xs).registry.models)
  /-- Whoever has finished has left the gate, -/
  released : ∀ id r, (s.after es).result? id = some r → ¬(s.after es).gate.Knows (.task id)
  /-- which belongs to the first of those who wait, if there is one. -/
  passed : ∀ id r, (s.after es).result? id = some r → (s.admitted es).getLast? = some id →
    (s.after es).gate.holder? = (s.after es).gate.line.head?

theorem preload_account (settings : EngineSettings) (table : Table) (policy : FailurePolicy)
    (es : List Event) : PreloadAccount (new settings table policy) es := by
  have hs := untouched_new settings table policy
  have hvacated := vacated_after hs.orderly (vacated_of_free hs.free) es
  have hentered : ∀ {id r}, ((new settings table policy).after es).result? id = some r →
      ((new settings table policy).after es).HasEntered id := fun hr =>
    ⟨_, result?_eq_some.1 hr, Stage.noConfusion⟩
  refine ⟨fun id job r hjob hr => hs.exists_letIn hjob (hentered hr),
    fun id r hr => hs.exists_return hr, fun xs id hin => (hin.preloading hs).calls_eq,
    fun xs id hin => (hin.preloading hs).creates_missing, ?_, ?_, ?_, ?_, ?_,
    fun xs id r hin hr hnot hlast => hin.halts hs hr hnot hlast, ?_,
    fun xs id hin => hin.listed, ?_, ?_⟩
  · intro xs id hin hok
    rw [((hin.preloading hs).of_succeeded hok).calls_eq]
    exact createdModels_preloadCalls _ _ _
  · rintro xs ys id rfl hjob hok j job hj htable c hc
    exact hs.not_setsUp_of_preloaded hjob hok hj htable hc
  · intro id hjob hok row hrow
    rw [Registry.mem_models]
    exact hs.contains_of_preloaded hjob hok (table.mem_models.2 ⟨row, hrow, rfl⟩)
  · intro model hmodel
    exact hs.exists_start_of_contains (Registry.mem_models.1 hmodel)
  -- Other tasks that go by the table bring no model that it does not have.
  · intro id hjob hok htable
    refine models_eq_mergeSort (stocked_after hs.orderly hs.stocked es).unique table.nodup_models
      fun model => ⟨fun h => ?_, fun h => hs.contains_of_preloaded hjob hok h⟩
    refine (hs.exists_start_of_contains h).resolve_right ?_
    rintro ⟨job, hstart, hforeign, -⟩
    exact hforeign (htable job hstart)
  · rintro xs ys rfl model hmodel
    rw [Registry.mem_models] at hmodel ⊢
    rw [after_append]
    exact contains_after (orderly_after hs.orderly xs) hmodel ys
  · intro id r hr
    exact (hs.queued es).not_knows_of_finished hvacated (result?_eq_some.1 hr)
      (hs.mem_admitted (hentered hr))
  · intro id r hr hlast
    exact (hs.queued es).holder?_of_finished hvacated (result?_eq_some.1 hr) hlast

/-- A preload stops at the second model, on whose engine no game can be started, and another one
comes. -/
def interruptedRun : List Event :=
  [.start .preload, .run 0] ++ List.replicate 9 (.returned 0 .ok) ++
    [.returned 0 (.failed ["engine exited"]), .start .preload, .run 1] ++
    List.replicate 3 (.returned 1 .ok)

/-- The second one goes on with the third model. -/
example : ((new .stock .stock .respond).after interruptedRun).registry.entries.map (·.model) =
      ["elo-206", "elo-416"] ∧
    createdModels ((new .stock .stock .respond).shown (calling 1) interruptedRun) =
      ["elo-754"] := by
  decide +kernel

end Service

end Sparring
