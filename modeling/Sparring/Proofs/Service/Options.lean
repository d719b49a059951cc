import Mathlib.Data.List.Pairwise
import Sparring.Proofs.Difficulty.Models
import Sparring.Proofs.Engine.Calls
import Sparring.Proofs.Service.Cache
import Sparring.Proofs.Service.Stock

/-!
# The options of an engine

An engine is created for the first request that needs its model, with the temperature of that
request's row. So which rows share a model matters: `options_account` says that the engine of a model
can get the options of each of its rows, and no others, whatever the order of the requests.

A table makes sure that rows of one model have equal temperatures. Equal is not the same: the two
zeros are equal and have different texts. So the options do not depend on the order of the requests
exactly if no model is given both zeros, and where one is, they depend on it in the sign of the zero
only.
-/

namespace Sparring

/-! ## Rows of one model -/

theorem Binary.toText_signedZero (f : BinaryFormat) (hf : 0 ≠ f.infinityRank) (negative : Bool) :
    (signedZero negative : Binary f).toText = if negative then "-0" else "0" := by
  cases negative <;> simp [signedZero, toText, hf, withSign]

/-- The options of an engine at a temperature of zero with the given sign. -/
def EngineSettings.optionsAtZero (s : EngineSettings) (model : String) (negative : Bool) :
    List EngineOption :=
  [("WeightsFile", s.weightsFile model), ("Temperature", if negative then "-0" else "0"),
    ("NNCacheSize", toString s.cacheSize)]

namespace Table

/-- Whether a model is given both zeros as temperatures. -/
def MixesZeros (t : Table) (model : String) : Prop :=
  ∃ row ∈ t.rows, ∃ row' ∈ t.rows, row.profile.model = model ∧ row'.profile.model = model ∧
    row.profile.temperature = .signedZero false ∧ row'.profile.temperature = .signedZero true

variable {t : Table} {row row' : Bucket}

/-- Two rows of one model have the same temperature, or they have the two zeros. -/
theorem temperature_eq_or_zeros (hrow : row ∈ t.rows) (hrow' : row' ∈ t.rows)
    (hmodel : row.profile.model = row'.profile.model) :
    row.profile.temperature = row'.profile.temperature ∨
      ∃ negative, row.profile.temperature = .signedZero negative ∧
        row'.profile.temperature = .signedZero !negative := by
  by_cases hsame : row = row'
  · exact Or.inl (by rw [hsame])
  · have : Std.Symm fun row row' : Bucket => row.profile.model = row'.profile.model →
        row.profile.temperature.eqv row'.profile.temperature = true :=
      ⟨fun _ _ h hmodel => Binary.eqv_symm (h hmodel.symm)⟩
    exact Binary.eq_or_zeros_of_eqv (t.inOrder.agreed.forall hrow hrow' hsame hmodel)

theorem resolve_threshold (h : row ∈ t.rows) : t.resolve row.threshold = row.profile := by
  obtain ⟨i, hi, rfl⟩ := List.getElem_of_mem h
  have hnumber := threshold_ne_nan h
  have htakes : t.Takes t.rows[i].threshold i := by
    refine ⟨hi, ?_, Or.inr (Binary.le_refl hnumber)⟩
    by_cases hzero : i = 0
    · exact Or.inl hzero
    · exact Or.inr (List.pairwise_iff_getElem.1 t.inOrder.increasing (i - 1) i (by omega) hi
        (by omega))
  exact htakes.resolve_eq hnumber

end Table

namespace EngineSettings

variable (settings : EngineSettings) {t : Table} {row row' : Bucket}

theorem options_of_zero {p : Profile} {negative : Bool} (h : p.temperature = .signedZero negative) :
    settings.options p = settings.optionsAtZero p.model negative := by
  rw [options, h, Binary.toText_signedZero _ (by decide)]
  rfl

/-- Two rows of one model give an engine the same options, or they differ in the sign of a zero. -/
theorem options_eq_or_zeros (hrow : row ∈ t.rows) (hrow' : row' ∈ t.rows)
    (hmodel : row.profile.model = row'.profile.model) :
    settings.options row.profile = settings.options row'.profile ∨
      ∃ negative, settings.options row.profile =
          settings.optionsAtZero row.profile.model negative ∧
        settings.options row'.profile = settings.optionsAtZero row.profile.model !negative := by
  rcases Table.temperature_eq_or_zeros hrow hrow' hmodel with hsame | ⟨negative, h, h'⟩
  · exact Or.inl (by rw [options, options, hmodel, hsame])
  · exact Or.inr ⟨negative, settings.options_of_zero h, hmodel ▸ settings.options_of_zero h'⟩

theorem optionsAtZero_ne (model : String) :
    settings.optionsAtZero model false ≠ settings.optionsAtZero model true := by
  simp [optionsAtZero]

end EngineSettings

/-! ## Where options come from -/

/-- A job that goes by the table is about profiles of its rows. -/
theorem Job.exists_row_of_byTable {job : Job} (h : job.ByTable) {table : Table} {p : Profile}
    (hp : p ∈ job.profiles table) : ∃ row ∈ table.rows, row.profile = p := by
  cases job with
  | move fen difficulty =>
    rw [List.mem_singleton.1 hp]
    exact table.resolve_mem difficulty
  | preload => exact table.distinctModels_mem hp
  | listModels => cases hp
  | obtain | place => exact h.elim

namespace Service

theorem registry_step (s : Service) (e : Event) : (s.step e).1.registry = s.registry ∨
    ∃ id p rest setup entry, s.stage? id = some (.setup p rest setup) ∧
      setup.next s.settings p = .ready entry ∧
      (s.step e).1.registry = s.registry.insert entry := by
  cases ha : s.aborted with
  | true => exact Or.inl (by rw [step_of_aborted ha])
  | false =>
    cases e with
    | returned id r =>
      cases ht : s.tasks[id]? with
      | none => exact Or.inl (by rw [(step_of_absent ha ht).2])
      | some t =>
        rw [step_returned ha ht]
        cases hturn : s.answer t.job t.stage r with
        | none => exact Or.inl rfl
        | some turn =>
          rcases registry_answer hturn with
            ⟨hsame, -⟩ | ⟨p, rest, setup, entry, hstage, hnext, rfl⟩
          · exact Or.inl ((registry_move _ _).trans hsame)
          · exact Or.inr ⟨id, p, rest, setup, entry, (stage?_of_task ht).trans (by rw [hstage]),
              hnext, registry_move _ _⟩
    | start | run | completed | hangUp =>
      exact Or.inl (registry_of_change (change_step ha _) fun _ _ => Event.noConfusion)

/-- Whether all tasks of a run go by the table. -/
def ByTable (es : List Event) : Prop := ∀ job, .start job ∈ es → job.ByTable

section Run

variable {s : Service} {es : List Event}

theorem exists_row_of_stage (hs : s.Untouched) (hes : ByTable es) {id : TaskId} {stage : Stage}
    (h : (s.after es).stage? id = some stage) {p : Profile} (hp : p ∈ stage.profiles) :
    ∃ row ∈ s.table.rows, row.profile = p := by
  obtain ⟨t, ht, rfl⟩ := Option.map_eq_some_iff.1 h
  have hstart : .start t.job ∈ es := by
    have hmem : t.job ∈ (s.after es).jobs := List.mem_map_of_mem (List.mem_of_getElem? ht)
    exact (start_mem_of_job hmem).resolve_left (by simp [jobs, hs.idle])
  exact Job.exists_row_of_byTable (hes _ hstart)
    (profile_mem_of_stage (hs.stage?_eq id) (job?_of_task ht) h hp)

/-- Every engine of the registry has the options of a row of its model. -/
theorem exists_row_of_entry (hs : s.Untouched) (hes : ByTable es) {entry : EngineEntry}
    (h : entry ∈ (s.after es).registry.entries) :
    ∃ row ∈ s.table.rows, entry = ⟨row.profile.model, s.settings.options row.profile⟩ := by
  induction es using List.reverseRecOn with
  | nil => simp [hs.empty] at h
  | append_singleton es e ih =>
    have hbefore : ByTable es := fun job hjob => hes job (List.mem_append_left _ hjob)
    rw [after_concat] at h
    rcases (s.after es).registry_step e with
      hsame | ⟨id, p, rest, setup, entry', hstage, hnext, hinsert⟩
    · exact ih hbefore (hsame ▸ h)
    · rw [hinsert, Registry.insert, List.mem_append, List.mem_singleton] at h
      rcases h with hold | rfl
      · exact ih hbefore hold
      · obtain ⟨row, hrow, rfl⟩ := exists_row_of_stage hs hbefore hstage List.mem_cons_self
        rw [(settings_of_terms (terms_after s es)).1] at hnext
        exact ⟨row, hrow, (covers_of_next (covers_after hs.stage?_eq hstage)).2 entry hnext⟩

/-- Every option that a task sets on an engine is one of a row of its model. -/
theorem exists_row_of_setOption (hs : s.Untouched) (hes : ByTable es) {e : Event}
    (he : ByTable [e]) {id : TaskId} {model name value : String}
    (h : ((s.after es).step e).2 = some (.call id (.setOption model name value))) :
    ∃ row ∈ s.table.rows, row.profile.model = model ∧
      (name, value) ∈ s.settings.options row.profile := by
  obtain ⟨stage, hstage, hc⟩ := stage?_of_call h
  rw [← after_concat] at hstage
  have hall : ByTable (es ++ [e]) := fun job hjob =>
    (List.mem_append.1 hjob).elim (hes job) (he job)
  cases stage with
  | setup p rest setup =>
    obtain ⟨row, hrow, rfl⟩ := exists_row_of_stage hs hall hstage List.mem_cons_self
    have hmem := call_mem_of_covers (covers_after hs.stage?_eq hstage)
    rw [Option.some.inj hc] at hmem
    exact ⟨row, hrow, option_mem_of_setupCalls hmem⟩
  | startingGame | positioning | submitting | waiting | thinking | finished => cases hc

end Run

/-! ## The account -/

/-- A request and an engine that accepts all options. -/
def firstRequest (fen : String) (difficulty : Double) : List Event :=
  [.start (.move fen difficulty), .run 0] ++ List.replicate 4 (.returned 0 .ok)

/-- Whether the engine of a model can get these options: in some run, with whatever requests in
whatever order, the registry comes to hold it with them. -/
def Configures (settings : EngineSettings) (table : Table) (model : String)
    (options : List EngineOption) : Prop :=
  ∃ policy es, ByTable es ∧
    ⟨model, options⟩ ∈ ((new settings table policy).after es).registry.entries

section Account

variable {settings : EngineSettings} {table : Table}

theorem entries_firstRequest (policy : FailurePolicy) (fen : String) (difficulty : Double) :
    ((new settings table policy).after (firstRequest fen difficulty)).registry.entries =
      [⟨(table.resolve difficulty).model, settings.options (table.resolve difficulty)⟩] := rfl

/-- The engine of a model can get the options of each row of the model, and no others. -/
theorem configures_iff {model : String} {options : List EngineOption} :
    Configures settings table model options ↔
      ∃ row ∈ table.rows, row.profile.model = model ∧ options = settings.options row.profile := by
  constructor
  · rintro ⟨policy, es, hes, hentry⟩
    obtain ⟨row, hrow, heq⟩ := exists_row_of_entry (untouched_new settings table policy) hes hentry
    cases heq
    exact ⟨row, hrow, rfl, rfl⟩
  · rintro ⟨row, hrow, rfl, rfl⟩
    refine ⟨.respond, firstRequest "" row.threshold, fun job hjob => ?_, ?_⟩
    · simp only [firstRequest, List.replicate, List.cons_append, List.nil_append, List.mem_cons,
        Event.start.injEq, reduceCtorEq, List.not_mem_nil, or_false] at hjob
      subst hjob
      trivial
    · rw [entries_firstRequest, Table.resolve_threshold hrow]
      exact List.mem_cons_self

end Account

/-- How the options of an engine depend on the requests that have come before it. -/
structure OptionsAccount (settings : EngineSettings) (table : Table) : Prop where
  /-- The engine of a model can get the options of each row of the model, and no others, -/
  configured : ∀ model options, Configures settings table model options ↔
    ∃ row ∈ table.rows, row.profile.model = model ∧ options = settings.options row.profile
  /-- for no call sets an option but that of a row of the model. -/
  called : ∀ policy es e, ByTable (es ++ [e]) → ∀ id model name value,
    (((new settings table policy).after es).step e).2 =
        some (.call id (.setOption model name value)) →
      ∃ row ∈ table.rows, row.profile.model = model ∧
        (name, value) ∈ settings.options row.profile
  /-- They do not depend on the requests if and only if the model is not given both zeros. -/
  settled : ∀ model, (∀ options options', Configures settings table model options →
      Configures settings table model options' → options = options') ↔ ¬table.MixesZeros model
  /-- If they do, then in the sign of the zero only. -/
  unsettled : ∀ model options options', Configures settings table model options →
    Configures settings table model options' → options = options' ∨
      ∃ negative, options = settings.optionsAtZero model negative ∧
        options' = settings.optionsAtZero model !negative

/-- The options of an engine depend on its model, and on the requests in the sign of a zero. -/
theorem options_account (settings : EngineSettings) (table : Table) :
    OptionsAccount settings table := by
  refine ⟨fun model options => configures_iff, fun policy es e hes id model name value h => ?_,
    fun model => ⟨fun hone hmixes => ?_, fun hmixes options options' h h' => ?_⟩,
    fun model options options' h h' => ?_⟩
  · exact exists_row_of_setOption (untouched_new settings table policy)
      (fun job hjob => hes job (List.mem_append_left _ hjob))
      (fun job hjob => hes job (List.mem_append_right _ hjob)) h
  · obtain ⟨row, hrow, row', hrow', rfl, hmodel', hzero, hzero'⟩ := hmixes
    have heq := hone _ _ (configures_iff.2 ⟨row, hrow, rfl, rfl⟩)
      (configures_iff.2 ⟨row', hrow', hmodel', rfl⟩)
    rw [settings.options_of_zero hzero, settings.options_of_zero hzero', hmodel'] at heq
    exact settings.optionsAtZero_ne _ heq
  · obtain ⟨row, hrow, rfl, rfl⟩ := configures_iff.1 h
    obtain ⟨row', hrow', hmodel', rfl⟩ := configures_iff.1 h'
    rcases Table.temperature_eq_or_zeros hrow hrow' hmodel'.symm with hsame | ⟨negative, hz, hz'⟩
    · rw [EngineSettings.options, EngineSettings.options, hmodel', hsame]
    · -- Which of the two rows has the negative zero is open.
      cases negative with
      | false => exact absurd ⟨row, hrow, row', hrow', rfl, hmodel', hz, hz'⟩ hmixes
      | true => exact absurd ⟨row', hrow', row, hrow, hmodel', rfl, hz', hz⟩ hmixes
  · obtain ⟨row, hrow, rfl, rfl⟩ := configures_iff.1 h
    obtain ⟨row', hrow', hmodel', rfl⟩ := configures_iff.1 h'
    exact settings.options_eq_or_zeros hrow hrow' hmodel'.symm

/-- The rows of a table with one model and both zeros. -/
def zeroRows : List Bucket :=
  [⟨.ofRatio .double false 1 2, ⟨200, 1, 1, .signedZero false, "maia-1100.pb"⟩⟩,
    ⟨.ofRatio .double false 1 1, ⟨200, 1, 1, .signedZero true, "maia-1100.pb"⟩⟩]

/-- The table with one model and both zeros. -/
def zeroTable : Table := ⟨zeroRows, by decide +kernel⟩

/-- The engine of the one model gets another temperature if the other request comes first. -/
theorem options_depend_on_first_request :
    let easy := firstRequest "fen" (.ofRatio .double false 1 4)
    let hard := firstRequest "fen" (.ofRatio .double false 3 4)
    ((new .stock zeroTable .respond).after easy).registry.entries =
        [⟨"maia-1100.pb", EngineSettings.stock.optionsAtZero "maia-1100.pb" false⟩] ∧
      ((new .stock zeroTable .respond).after hard).registry.entries =
        [⟨"maia-1100.pb", EngineSettings.stock.optionsAtZero "maia-1100.pb" true⟩] ∧
      EngineSettings.stock.optionsAtZero "maia-1100.pb" false ≠
        EngineSettings.stock.optionsAtZero "maia-1100.pb" true := by
  decide +kernel

end Service

end Sparring
