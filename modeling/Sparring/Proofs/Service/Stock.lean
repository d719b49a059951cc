import Sparring.Proofs.Difficulty.Models
import Sparring.Proofs.Service.Origins

/-!
# What is in stock

An engine comes into the registry when its setup has come to an end, and it is set up only if the
registry does not have it (`Restock`). So the registry keeps what it has and has no model twice
(`Stocked`), whatever the tasks have to do.

Which models a task needs is settled by its job (`Job.models`): the profiles that it has still to do
with are among those of its job (`profile_mem_of_stage`), and the registry has a model only if some
job needs it (`exists_job_of_contains`). A job that goes by the table needs models of the table only.
-/

namespace Sparring

/-! ## The models of a registry -/

namespace Registry

variable {r : Registry} {entry : EngineEntry} {model : String}

theorem find?_insert : (r.insert entry).find? model =
    (r.find? model).or (if entry.model = model then some entry else none) := by
  simp only [find?, insert, List.find?_append]
  congr 1
  by_cases h : entry.model = model <;> simp [h]

theorem contains_insert : (r.insert entry).contains model = true ↔
    r.contains model = true ∨ model = entry.model := by
  unfold contains
  rw [find?_insert]
  by_cases h : entry.model = model
  · simp [h]
  · simp [h, Ne.symm h]

theorem contains_iff : r.contains model = true ↔ model ∈ r.entries.map (·.model) := by
  rw [contains, Option.isSome_iff_ne_none, Ne, Service.find?_eq_none, not_not]

theorem mem_models : model ∈ r.models ↔ r.contains model = true := by
  rw [contains_iff]
  exact (List.mergeSort_perm _ _).mem_iff

end Registry

/-! ## Profiles and models -/

/-- The profiles whose engines a task at a stage has still to see to, or to start a game on. -/
def Stage.profiles : Stage → List Profile
  | setup p rest _ | startingGame p rest => p :: rest
  | _ => []

namespace Job

/-- The models that a job needs. -/
def models (table : Table) : Job → List String
  | move _ difficulty => [(table.resolve difficulty).model]
  | preload => table.models
  | listModels => []
  | obtain p | place p _ => [p.model]

/-- The profiles that a job is about. -/
def profiles (table : Table) : Job → List Profile
  | move _ difficulty => [table.resolve difficulty]
  | preload => table.distinctModels
  | listModels => []
  | obtain p | place p _ => [p]

theorem models_eq (job : Job) (table : Table) :
    job.models table = (job.profiles table).map (·.model) := by
  cases job <;> rfl

/-- Whether a job has no profiles but those of the table. -/
def ByTable : Job → Prop
  | obtain _ | place .. => False
  | move .. | preload | listModels => True

theorem models_subset {job : Job} (h : job.ByTable) (table : Table) :
    job.models table ⊆ table.models := by
  cases job with
  | move fen difficulty =>
    refine List.cons_subset.2 ⟨table.model_resolve_mem difficulty, List.nil_subset _⟩
  | preload => exact List.Subset.refl _
  | listModels => exact List.nil_subset _
  | obtain | place => exact h.elim

end Job

namespace Service

/-! ## One turn -/

section Turn

variable {s : Service} {job : Job} {p : Profile} {rest : List Profile}

theorem profiles_ready (entry : EngineEntry) : (ready job p rest entry).profiles ⊆ p :: rest := by
  cases job with
  | obtain | place => exact List.nil_subset _
  | move | preload | listModels => exact List.Subset.refl _

theorem profiles_seek : (s.seek job p rest).profiles ⊆ p :: rest := by
  unfold seek
  split
  · exact profiles_ready _
  · exact List.Subset.refl _

theorem profiles_seekAll : (s.seekAll job rest).profiles ⊆ rest := by
  cases rest with
  | nil => exact List.nil_subset _
  | cons p rest => exact profiles_seek

/-- An engine is only set up if it is missing. -/
theorem find?_of_seek {q : Profile} {rest' : List Profile} {setup : Setup}
    (h : s.seek job p rest = .setup q rest' setup) : s.registry.find? q.model = none := by
  unfold seek at h
  split at h
  · cases job <;> cases h
  next hfind =>
    cases h
    exact hfind

theorem find?_of_seekAll {q : Profile} {rest' : List Profile} {setup : Setup}
    (h : s.seekAll job rest = .setup q rest' setup) : s.registry.find? q.model = none := by
  cases rest with
  | nil => cases h
  | cons p rest => exact find?_of_seek h

theorem find?_of_firstStage {q : Profile} {rest' : List Profile} {setup : Setup}
    (h : s.firstStage job = .setup q rest' setup) : s.registry.find? q.model = none := by
  cases job with
  | listModels => cases h
  | preload => exact find?_of_seekAll h
  | move | obtain | place => exact find?_of_seek h

theorem profile_mem_of_firstStage {q : Profile} (h : q ∈ (s.firstStage job).profiles) :
    q ∈ job.profiles s.table := by
  cases job with
  | listModels => cases h
  | preload => exact profiles_seekAll h
  | move | obtain | place => exact profiles_seek h

variable {stage : Stage} {r : CallResult} {turn : Turn}

/-- A task that moves on turns to no other profiles. -/
theorem profiles_answer (h : s.answer job stage r = some turn) :
    turn.stage.profiles ⊆ stage.profiles := by
  cases r with
  | failed | crashed =>
    obtain ⟨_, -, rfl⟩ := Option.map_eq_some_iff.1 h
    cases stage <;> exact List.nil_subset _
  | ok =>
    cases stage with
    | setup p rest setup =>
      simp only [answer, succeed] at h
      split at h <;> cases h
      · exact List.Subset.refl _
      · exact profiles_ready _
    | startingGame p rest =>
      have hrest : (s.seekAll job rest).profiles ⊆ p :: rest := fun q hq =>
        List.mem_cons_of_mem p (profiles_seekAll hq)
      cases job <;> cases h <;> first | exact List.nil_subset _ | exact hrest
    | positioning p fen =>
      have harm : (s.arm p).stage.profiles = [] := by
        unfold arm
        split <;> rfl
      cases job <;> cases h <;> first | exact List.nil_subset _ | exact harm ▸ List.nil_subset _
    | submitting =>
      cases h
      exact List.nil_subset _
    | waiting | thinking | finished => cases h

theorem registry_answer (h : s.answer job stage r = some turn) :
    (turn.service.registry = s.registry ∧ ∀ p rest setup, turn.stage = .setup p rest setup →
      (∃ setup', stage = .setup p rest setup') ∨ s.registry.find? p.model = none) ∨
    ∃ p rest setup entry, stage = .setup p rest setup ∧ setup.next s.settings p = .ready entry ∧
      turn = .to (ready job p rest entry) { s with registry := s.registry.insert entry } := by
  -- Only the last call of a setup brings an engine, and only an engine that is missing is set up.
  cases r with
  | failed | crashed =>
    obtain ⟨_, -, rfl⟩ := Option.map_eq_some_iff.1 h
    cases stage <;> exact Or.inl ⟨rfl, fun _ _ _ hno => by cases hno⟩
  | ok =>
    cases stage with
    | setup p rest setup =>
      simp only [answer, succeed] at h
      split at h <;> cases h
      · exact Or.inl ⟨rfl, fun _ _ _ hsame => by cases hsame; exact Or.inl ⟨_, rfl⟩⟩
      next hnext => exact Or.inr ⟨p, rest, setup, _, rfl, hnext, rfl⟩
    | startingGame p rest =>
      cases job <;> cases h <;>
        first
          | exact Or.inl ⟨rfl, fun _ _ _ hno => by cases hno⟩
          | exact Or.inl ⟨rfl, fun _ _ _ hseek => Or.inr (find?_of_seekAll hseek)⟩
    | positioning p fen =>
      have harm : (s.arm p).service.registry = s.registry ∧
          ∀ q rest setup, (s.arm p).stage ≠ .setup q rest setup := by
        unfold arm
        split <;> exact ⟨rfl, fun _ _ _ => Stage.noConfusion⟩
      cases job <;> cases h <;>
        first
          | exact Or.inl ⟨rfl, fun _ _ _ hno => by cases hno⟩
          | exact Or.inl ⟨harm.1, fun _ _ _ hno => absurd hno (harm.2 _ _ _)⟩
    | submitting =>
      cases h
      exact Or.inl ⟨rfl, fun _ _ _ hno => by cases hno⟩
    | waiting | thinking | finished => cases h

end Turn

/-! ## One step -/

/-- What a step can do to the registry. -/
inductive Restock (s s' : Service) : Prop
  /-- The registry stays as it is. What is being set up was so before, or is missing. -/
  | kept : s'.registry = s.registry →
    (∀ id p rest setup, s'.stage? id = some (.setup p rest setup) →
      (∃ setup', s.stage? id = some (.setup p rest setup')) ∨ s.registry.find? p.model = none) →
    Restock s s'
  /-- An engine has been set up. No other is. -/
  | stocked {id : TaskId} {p : Profile} {rest : List Profile} {setup : Setup}
      {entry : EngineEntry} :
    s.stage? id = some (.setup p rest setup) → entry.model = p.model →
    s'.registry = s.registry.insert entry →
    (∀ j q rest' setup', s'.stage? j ≠ some (.setup q rest' setup')) → Restock s s'

section Step

variable {s s' : Service} {e : Event}

theorem Restock.refl (s : Service) : Restock s s := .kept rfl fun _ _ _ _ h => Or.inl ⟨_, h⟩

/-- The registry only changes when a call comes back. -/
theorem registry_of_change {out : Service × Option Effect} (hc : Change s e out)
    (he : ∀ id r, e ≠ .returned id r) : out.1.registry = s.registry := by
  cases hc with
  | idle | completed | queued | arrived => rfl
  | entered => exact registry_move _ _
  | @passed _ j t r turn heq ht hpass =>
    cases r with
    | some r => exact absurd heq (he j r)
    | none =>
      obtain ⟨job, stage⟩ := t
      cases hpass with
      | told => exact registry_move _ _

theorem restock_of_change {out : Service × Option Effect} (hc : Change s e out)
    (he : ∀ id r, e ≠ .returned id r) : Restock s out.1 := by
  refine .kept (registry_of_change hc he) fun id p rest setup h => ?_
  cases hc with
  | idle | completed | queued => exact Or.inl ⟨_, h⟩
  | arrived job =>
    rw [stage?_arrive] at h
    split at h
    · cases h
    · exact Or.inl ⟨_, h⟩
  | entered =>
    rw [stage?_move] at h
    split at h
    · obtain ⟨_, -, hfirst⟩ := Option.map_eq_some_iff.1 h
      exact Or.inr (find?_of_firstStage hfirst)
    · exact Or.inl ⟨_, h⟩
  | @passed _ j t r turn heq ht hpass =>
    cases r with
    | some r => exact absurd heq (he j r)
    | none =>
      obtain ⟨job, stage⟩ := t
      cases hpass with
      | told =>
        rw [stage?_move] at h
        split at h
        · obtain ⟨_, -, hno⟩ := Option.map_eq_some_iff.1 h
          cases hno
        · exact Or.inl ⟨_, h⟩

theorem restock_of_answer (ho : s.Orderly) {id : TaskId} {t : Task} (ht : s.tasks[id]? = some t)
    {r : CallResult} {turn : Turn} (hturn : s.answer t.job t.stage r = some turn) :
    Restock s (move id turn).1 := by
  have hpass := passage_answer hturn
  have hid := stage?_of_task ht
  rcases registry_answer hturn with
    ⟨hregistry, hsetup⟩ | ⟨p, rest, setup, entry, hstage, hnext, rfl⟩
  · refine .kept ((registry_move _ _).trans hregistry) fun j q rest' setup' h => ?_
    rw [stage?_move, hpass.stage?_eq] at h
    split at h
    next hj =>
      obtain ⟨_, -, hq⟩ := Option.map_eq_some_iff.1 h
      refine (hsetup q rest' setup' hq).imp_left ?_
      rintro ⟨setup'', hold⟩
      exact ⟨setup'', by rw [hj.1, hid, hold]⟩
    next => exact Or.inl ⟨_, h⟩
  · rw [hstage] at hid
    refine .stocked hid (next_eq_ready hnext).2 (registry_move _ _) fun j q rest' setup' h => ?_
    rw [stage?_move] at h
    split at h
    next hj =>
      obtain ⟨_, -, hready⟩ := Option.map_eq_some_iff.1 h
      cases hjob : t.job <;> rw [hjob] at hready <;> cases hready
    next hj =>
      -- Nobody else is inside, for the task has access.
      have hother : j ≠ id := fun he => hj ⟨he, not_fatal_to _ _⟩
      cases ho.alone hid rfl j _ hother h

/-- The registry only ever gets an engine that has been set up because it was missing. -/
theorem restock_step (ho : s.Orderly) (e : Event) : Restock s (s.step e).1 := by
  cases ha : s.aborted with
  | true =>
    rw [step_of_aborted ha]
    exact .refl s
  | false =>
    cases e with
    | returned id r =>
      cases ht : s.tasks[id]? with
      | none =>
        rw [(step_of_absent ha ht).2]
        exact .refl s
      | some t =>
        rw [step_returned ha ht]
        cases hturn : s.answer t.job t.stage r with
        | none => exact .refl s
        | some turn => exact restock_of_answer ho ht hturn
    | start | run | completed | hangUp =>
      exact restock_of_change (change_step ha _) fun _ _ => Event.noConfusion

/-! ## Stocked services -/

/-- Whether the registry has no model twice, and what is being set up is missing. -/
structure Stocked (s : Service) : Prop where
  unique : (s.registry.entries.map (·.model)).Nodup
  missing : ∀ id p rest setup, s.stage? id = some (.setup p rest setup) →
    s.registry.find? p.model = none

theorem Restock.stocked_of (h : Restock s s') (hs : s.Stocked) : s'.Stocked := by
  cases h with
  | kept hregistry hsetup =>
    refine ⟨by rw [hregistry]; exact hs.unique, fun id p rest setup hid => ?_⟩
    rw [hregistry]
    rcases hsetup id p rest setup hid with ⟨setup', hold⟩ | hmissing
    · exact hs.missing id p rest setup' hold
    · exact hmissing
  | @stocked id p rest setup entry hid hmodel hregistry hno =>
    refine ⟨?_, fun j q rest' setup' hj => absurd hj (hno j q rest' setup')⟩
    have hnew := find?_eq_none.1 (hs.missing id p rest setup hid)
    rw [hregistry, Registry.insert, List.map_append, List.map_singleton, hmodel]
    refine List.nodup_append.2 ⟨hs.unique, List.pairwise_singleton _ _, ?_⟩
    rintro a ha b hb rfl
    exact hnew (List.mem_singleton.1 hb ▸ ha)

/-- The registry keeps what it has. -/
theorem Restock.contains (h : Restock s s') {model : String}
    (hmodel : s.registry.contains model = true) : s'.registry.contains model = true := by
  cases h with
  | kept hregistry => rwa [hregistry]
  | stocked _ _ hregistry =>
    rw [hregistry]
    exact Registry.contains_insert.2 (Or.inl hmodel)

end Step

/-! ## Runs -/

theorem stocked_after {s : Service} (ho : s.Orderly) (h : s.Stocked) (es : List Event) :
    (s.after es).Stocked :=
  (after_of_step (P := fun s => s.Orderly ∧ s.Stocked)
    (fun _ e h => ⟨orderly_step h.1 e, (restock_step h.1 e).stocked_of h.2⟩) ⟨ho, h⟩ es).2

theorem contains_after {s : Service} (ho : s.Orderly) {model : String}
    (h : s.registry.contains model = true) (es : List Event) :
    (s.after es).registry.contains model = true :=
  (after_of_step (P := fun s => s.Orderly ∧ s.registry.contains model = true)
    (fun _ e h => ⟨orderly_step h.1 e, (restock_step h.1 e).contains h.2⟩) ⟨ho, h⟩ es).2

section Run

variable {s : Service} {es : List Event}

theorem profile_mem_of_stage {id : TaskId} {job : Job} {stage : Stage} {p : Profile}
    (hnew : s.stage? id = none) (hjob : (s.after es).job? id = some job)
    (h : (s.after es).stage? id = some stage) (hp : p ∈ stage.profiles) :
    p ∈ job.profiles s.table := by
  induction es using List.reverseRecOn generalizing stage with
  | nil => cases hnew.symm.trans h
  | append_singleton es e ih =>
    have hearlier : ∀ {t : Task}, (s.after es).tasks[id]? = some t →
        t.job = job ∧ (p ∈ t.stage.profiles → p ∈ job.profiles s.table) := by
      intro t ht
      have hback := job?_of_append (stage?_of_task ht) hjob
      exact ⟨Option.some.inj ((job?_of_task ht).symm.trans hback), ih hback (stage?_of_task ht)⟩
    rw [after_concat] at h
    cases reached_step h with
    | stayed hold => exact ih (job?_of_append hold hjob) hold hp
    | arrived | told => cases hp
    | entered ht =>
      rw [(hearlier ht).1] at hp
      rw [← (settings_of_terms (terms_after s es)).2]
      exact profile_mem_of_firstStage hp
    | answered _ ht _ hturn => exact (hearlier ht).2 (profiles_answer hturn hp)

theorem model_mem_of_stage {id : TaskId} {job : Job} {stage : Stage} {p : Profile}
    (hnew : s.stage? id = none) (hjob : (s.after es).job? id = some job)
    (h : (s.after es).stage? id = some stage) (hp : p ∈ stage.profiles) :
    p.model ∈ job.models s.table := by
  rw [Job.models_eq]
  exact List.mem_map_of_mem (profile_mem_of_stage hnew hjob h hp)

/-- Every model of the registry was there at the start, or some job needs it. -/
theorem exists_job_of_contains (ho : s.Orderly) (hnew : ∀ id, s.stage? id = none) {model : String}
    (h : (s.after es).registry.contains model = true) :
    s.registry.contains model = true ∨
      ∃ job ∈ (s.after es).jobs, model ∈ job.models s.table := by
  induction es using List.reverseRecOn with
  | nil => exact Or.inl h
  | append_singleton es e ih =>
    have hjobs : ∀ job ∈ (s.after es).jobs, job ∈ (s.after (es ++ [e])).jobs := by
      intro job hjob
      rw [after_concat]
      rcases jobs_step (s.after es) e with hsame | ⟨_, -, hmore⟩
      · rwa [hsame]
      · rw [hmore]
        exact List.mem_append_left _ hjob
    have hold : (s.after es).registry.contains model = true → s.registry.contains model = true ∨
        ∃ job ∈ (s.after (es ++ [e])).jobs, model ∈ job.models s.table := fun hbefore =>
      (ih hbefore).imp_right fun ⟨job, hjob, hmodel⟩ => ⟨job, hjobs job hjob, hmodel⟩
    have hstep := restock_step (orderly_after ho es) e
    rw [← after_concat] at hstep
    cases hstep with
    | kept hregistry => exact hold (hregistry ▸ h)
    | @stocked id p rest setup entry hid hentry hregistry =>
      rw [hregistry, Registry.contains_insert] at h
      rcases h with hbefore | rfl
      · exact hold hbefore
      · obtain ⟨t, ht, hstage⟩ := Option.map_eq_some_iff.1 hid
        have hmem : t.job ∈ (s.after es).jobs := List.mem_map_of_mem (List.mem_of_getElem? ht)
        refine Or.inr ⟨t.job, hjobs _ hmem, ?_⟩
        rw [hentry]
        exact model_mem_of_stage (hnew id) (job?_of_task ht) hid List.mem_cons_self

end Run

end Service

end Sparring
