import Mathlib.Data.List.Nodup
import Sparring.Proofs.Service.Obtaining

/-!
# What the registry holds

If all tasks call for engines, their calls come one after another, and the registry holds exactly
what the successful ones have brought: one engine for each model, with the options of the first
successful call for it. `cache_account` says so of every run, with any profiles, and whatever the
calls to the engines come back with.

The registry only changes in the course of the call that was let in last, so a run is taken apart
at this point, again and again (`entry_induction`). What is known of the registry at each of them
is `Accurate`.
-/

namespace Sparring.Service

/-! ## Services that nobody has called -/

/-- Whether nobody has called the service yet. -/
structure Untouched (s : Service) : Prop where
  idle : s.tasks = []
  free : s.gate = .free
  empty : s.registry.entries = []

theorem untouched_new (settings : EngineSettings) (table : Table) (policy : FailurePolicy) :
    (new settings table policy).Untouched := ⟨rfl, rfl, rfl⟩

theorem Untouched.stage?_eq {s : Service} (h : s.Untouched) (id : TaskId) : s.stage? id = none := by
  simp [stage?, h.idle]

theorem Untouched.orderly {s : Service} (h : s.Untouched) : s.Orderly := by
  intro id stage hstage
  cases (h.stage?_eq id).symm.trans hstage

theorem Untouched.outside {s : Service} (h : s.Untouched) (id : TaskId) : ¬s.HasEntered id := by
  rintro ⟨stage, hstage, -⟩
  cases (h.stage?_eq id).symm.trans hstage

theorem Untouched.queued {s : Service} (h : s.Untouched) (es : List Event) : Queued s es :=
  queued_after h.orderly h.free es

/-! ## The calls of a run -/

/-- Whether a task was let in after `xs` to call for the engine of a profile. -/
structure Enters (s : Service) (es xs : List Event) (id : TaskId) (p : Profile) : Prop where
  split : ∃ ys, es = xs ++ .run id :: ys
  entering : (s.after xs).entering (.run id) = [id]
  job : (s.after xs).job? id = some (.obtain p)

/-- Whether a call for the engine of a profile has succeeded with an entry. -/
structure Obtains (s : Service) (es : List Event) (id : TaskId) (p : Profile)
    (entry : EngineEntry) : Prop where
  job : (s.after es).job? id = some (.obtain p)
  result : (s.after es).result? id = some (.obtained (.ok entry))

theorem Enters.append {s : Service} {es xs : List Event} {id : TaskId} {p : Profile}
    (h : Enters s es xs id p) (more : List Event) : Enters s (es ++ more) xs id p := by
  obtain ⟨ys, rfl⟩ := h.split
  exact ⟨⟨ys ++ more, by simp⟩, h.entering, h.job⟩

theorem Obtains.append {s : Service} {es : List Event} {id : TaskId} {p : Profile}
    {entry : EngineEntry} (h : Obtains s es id p entry) (more : List Event) :
    Obtains s (es ++ more) id p entry := by
  refine ⟨?_, ?_⟩
  · rw [after_append]
    exact job?_after h.job more
  · rw [after_append]
    exact result?_after h.result more

section Enters

variable {s : Service} {es xs : List Event} {id : TaskId} {p : Profile}

theorem Enters.job_after (h : Enters s es xs id p) : (s.after es).job? id = some (.obtain p) := by
  obtain ⟨ys, rfl⟩ := h.split
  rw [after_append]
  exact job?_after h.job _

/-- The course of a call depends on the registry that it finds. -/
theorem Enters.obtaining (h : Enters s es xs id p) (hs : s.Untouched) :
    Obtaining s (s.after xs).registry id p es := by
  obtain ⟨ys, rfl⟩ := h.split
  exact obtaining_after hs.orderly hs.free h.entering h.job

/-- When a task is let in, all those before it have finished. -/
theorem Enters.finished (h : Enters s es xs id p) (hs : s.Untouched) {j : TaskId}
    (hj : j ∈ s.admitted xs) : ∃ r, (s.after xs).result? j = some r := by
  obtain ⟨stage, hstage, hentered⟩ := (hs.queued xs).entered j hj
  obtain ⟨t, -, ht, hw, hp⟩ := exists_waiting_of_entering h.entering
  have hne : j ≠ id := by
    rintro rfl
    cases hstage.symm.trans (stage?_of_task ht)
    exact hentered hw
  have hout := (orderly_after hs.orderly xs).alone_of_poll hp j stage hne hstage
  cases stage with
  | waiting => exact absurd rfl hentered
  | finished r => exact ⟨r, result?_eq_some.2 hstage⟩
  | setup | startingGame | positioning | submitting | thinking => cases hout

end Enters

/-! ## Who has been let in -/

theorem hasEntered_of_step {s : Service} {e : Event} {id : TaskId}
    (h : (s.step e).1.HasEntered id) : s.HasEntered id ∨ s.entering e = [id] := by
  obtain ⟨stage, hstage, hne⟩ := h
  rcases entering_eq s e with hsilent | ⟨j, t, rfl, ha, ht, hw, hp, hone⟩
  · refine Or.inl ?_
    cases ha : s.aborted with
    | true =>
      rw [step_of_aborted ha] at hstage
      exact ⟨stage, hstage, hne⟩
    | false =>
      have hc := change_step ha e
      generalize s.step e = out at hc hstage
      cases hc with
      | idle | queued | completed => exact ⟨stage, hstage, hne⟩
      | arrived job =>
        rw [stage?_arrive] at hstage
        split at hstage
        · cases hstage
          exact absurd rfl hne
        · exact ⟨stage, hstage, hne⟩
      | entered ht hw hp =>
        simp [entering, asking_of_waiting ha ht hw, hp] at hsilent
      | passed _ ht hpass =>
        rw [stage?_move, hpass.stage?_eq] at hstage
        split at hstage
        next hj => exact hj.1 ▸ hpass.hasEntered ht
        next => exact ⟨stage, hstage, hne⟩
  · by_cases hj : j = id
    · exact Or.inr (hj ▸ hone)
    · rw [step_of_letIn ha ht hw hp, stage?_move, if_neg fun h => hj h.1.symm] at hstage
      exact Or.inl ⟨stage, hstage, hne⟩

theorem Untouched.mem_admitted {s : Service} (hs : s.Untouched) {es : List Event} {id : TaskId}
    (h : (s.after es).HasEntered id) : id ∈ s.admitted es := by
  induction es using List.reverseRecOn with
  | nil => exact absurd h (hs.outside id)
  | append_singleton es e ih =>
    rw [after_concat] at h
    rw [admitted_concat, List.mem_append]
    rcases hasEntered_of_step h with hbefore | hone
    · exact Or.inl (ih hbefore)
    · exact Or.inr (by simp [hone])

theorem Untouched.entries_eq {s : Service} (hs : s.Untouched) {es : List Event}
    (h : s.admitted es = []) : (s.after es).registry.entries = [] := by
  induction es using List.reverseRecOn with
  | nil => exact hs.empty
  | append_singleton es e ih =>
    rw [admitted_concat, List.append_eq_nil_iff] at h
    have hout : ∀ id, ¬(s.after es).HasEntered id := by
      intro id hid
      have hmem := hs.mem_admitted hid
      rw [h.1] at hmem
      cases hmem
    rw [after_concat, ← ih h.1]
    cases ha : (s.after es).aborted with
    | true => rw [step_of_aborted ha]
    | false =>
      have hc := change_step ha e
      generalize (s.after es).step e = out at hc
      cases hc with
      | idle | arrived | queued | completed => rfl
      | entered => rw [registry_move]; rfl
      | passed _ ht hpass => exact absurd (hpass.hasEntered ht) (hout _)

theorem exists_last_entering {s : Service} {es : List Event} (h : s.admitted es ≠ []) :
    ∃ xs id ys, es = xs ++ .run id :: ys ∧ (s.after xs).entering (.run id) = [id] ∧
      s.admitted es = s.admitted xs ++ [id] := by
  rcases List.eq_nil_or_concat (s.admitted es) with hnil | ⟨ids, id, hids⟩
  · exact absurd hnil h
  rw [List.concat_eq_append] at hids
  have halone : ∀ (s : Service) e, id ∈ s.entering e → s.entering e = [id] := by
    intro s e hid
    rcases entering_eq s e with hnone | ⟨j, _, -, -, -, -, -, hone⟩
    · rw [hnone] at hid
      cases hid
    · rw [hone, List.mem_singleton] at hid
      rw [hone, hid]
  obtain ⟨xs, e, ys, rfl, hxs, hlook⟩ := observe_split halone hids
  rw [foldl_step] at hlook
  rcases entering_eq (s.after xs) e with hnone | ⟨j, _, rfl, -, -, -, -, hone⟩
  · cases hlook.symm.trans hnone
  · cases hlook.symm.trans hone
    exact ⟨xs, id, ys, rfl, hlook, hids.trans (congrArg (· ++ [id]) hxs.symm)⟩

/-! ## Entries -/

theorem mem_of_find? {registry : Registry} {model : String} {entry : EngineEntry}
    (h : registry.find? model = some entry) :
    entry ∈ registry.entries ∧ entry.model = model :=
  ⟨List.mem_of_find?_eq_some h, by simpa using List.find?_some h⟩

theorem find?_of_mem {registry : Registry} (hunique : (registry.entries.map (·.model)).Nodup)
    {entry : EngineEntry} (h : entry ∈ registry.entries) :
    registry.find? entry.model = some entry := by
  cases hfind : registry.find? entry.model with
  | none => exact absurd (List.mem_map_of_mem h) (find?_eq_none.1 hfind)
  | some found =>
    obtain ⟨hmem, hmodel⟩ := mem_of_find? hfind
    rw [List.inj_on_of_nodup_map hunique hmem h hmodel]

theorem find?_insert_of_ne {registry : Registry} {entry : EngineEntry} {model : String}
    (h : entry.model ≠ model) : (registry.insert entry).find? model = registry.find? model := by
  simp [Registry.find?, Registry.insert, h]

/-! ## What the last call has done -/

section Enters

variable {s : Service} {es xs : List Event} {id : TaskId} {p : Profile}

/-- The call that was let in last has left the registry as it was, or set its engine up. -/
theorem Enters.registry (h : Enters s es xs id p) (hs : s.Untouched)
    (hlast : (s.admitted es).getLast? = some id) :
    ((s.after es).registry = (s.after xs).registry ∧
      ∀ entry, Obtains s es id p entry → (s.after xs).registry.find? p.model = some entry) ∨
    ((s.after xs).registry.find? p.model = none ∧
      Obtains s es id p ⟨p.model, s.settings.options p⟩ ∧
      (s.after es).registry =
        (s.after xs).registry.insert ⟨p.model, s.settings.options p⟩) := by
  have hresult : ∀ {stage calls results registry entry},
      Stands s es id stage calls results registry → Obtains s es id p entry →
      stage = .finished (.obtained (.ok entry)) := fun hst hob =>
    Option.some.inj (hst.stage_eq.symm.trans (result?_eq_some.1 hob.result))
  cases h.obtaining hs with
  | found hfind hst =>
    refine Or.inl ⟨hst.registry_eq hlast, fun entry hob => ?_⟩
    cases hresult hst hob
    exact hfind
  | created habsent hst =>
    exact Or.inr ⟨habsent, ⟨h.job_after, result?_eq_some.2 hst.stage_eq⟩, hst.registry_eq hlast⟩
  | underway _ _ _ hst | failed _ _ hst | crashed _ _ hst =>
    exact Or.inl ⟨hst.registry_eq hlast, fun entry hob => by cases hresult hst hob⟩

/-- A call that has succeeded and was not let in last has done so before. -/
theorem Enters.obtains_of_ne (h : Enters s es xs id p) (hs : s.Untouched)
    (hids : s.admitted es = s.admitted xs ++ [id]) {j : TaskId} {q : Profile}
    {entry : EngineEntry} (hob : Obtains s es j q entry) (hne : j ≠ id) :
    Obtains s xs j q entry := by
  have hmem : j ∈ s.admitted es :=
    hs.mem_admitted ⟨_, result?_eq_some.1 hob.result, Stage.noConfusion⟩
  rw [hids, List.mem_append, List.mem_singleton] at hmem
  obtain ⟨r, hr⟩ := h.finished hs (hmem.resolve_right hne)
  obtain ⟨ys, rfl⟩ := h.split
  have hlater := result?_after hr (.run id :: ys)
  rw [← after_append, hob.result] at hlater
  cases hlater
  exact ⟨job?_of_append (result?_eq_some.1 hr) hob.job, hr⟩

end Enters

/-! ## What is known of the registry -/

/-- Whether all tasks of a run call for engines. -/
def AllObtain (es : List Event) : Prop := ∀ job, .start job ∈ es → ∃ p, job = .obtain p

section Run

variable {s : Service}

theorem AllObtain.of_enters {es xs : List Event} {id : TaskId} {p : Profile}
    (hall : AllObtain es) (h : Enters s es xs id p) : AllObtain xs := by
  obtain ⟨ys, rfl⟩ := h.split
  exact fun job hjob => hall job (List.mem_append_left _ hjob)

/-- Some call was let in last. -/
theorem Untouched.exists_last_enters (hs : s.Untouched) {es : List Event} (hall : AllObtain es)
    (h : s.admitted es ≠ []) :
    ∃ xs id p, Enters s es xs id p ∧ s.admitted es = s.admitted xs ++ [id] := by
  obtain ⟨xs, id, ys, rfl, hone, hids⟩ := exists_last_entering h
  obtain ⟨t, -, ht, -, -⟩ := exists_waiting_of_entering hone
  obtain ⟨p, hp⟩ : ∃ p, t.job = .obtain p := by
    have hjob := (job?_eq _ id).symm.trans (job?_of_task ht)
    rcases start_mem_of_job (List.mem_of_getElem? hjob) with hold | hnew
    · simp [jobs, hs.idle] at hold
    · exact hall _ (List.mem_append_left _ hnew)
  exact ⟨xs, id, p, ⟨⟨ys, rfl⟩, hone, hp ▸ job?_of_task ht⟩, hids⟩

/-- A run can be taken apart where the last task was let in. -/
theorem Untouched.entry_induction (hs : s.Untouched) {P : List Event → Prop} {es : List Event}
    (hall : AllObtain es) (hnone : ∀ xs, s.admitted xs = [] → P xs)
    (hlast : ∀ xs ys id p, Enters s ys xs id p → s.admitted ys = s.admitted xs ++ [id] →
      P xs → P ys) : P es := by
  by_cases hnil : s.admitted es = []
  · exact hnone es hnil
  · obtain ⟨xs, id, p, henters, hids⟩ := hs.exists_last_enters hall hnil
    have hshorter : xs.length < es.length := by
      obtain ⟨ys, rfl⟩ := henters.split
      simp
    exact hlast xs es id p henters hids
      (hs.entry_induction (hall.of_enters henters) hnone hlast)
termination_by es.length

/-- What is known of the registry after a run in which all tasks call for engines. -/
structure Accurate (s : Service) (es : List Event) : Prop where
  unique : ((s.after es).registry.entries.map (·.model)).Nodup
  /-- What a call has succeeded with is there. -/
  stored : ∀ id p entry, Obtains s es id p entry →
    entry ∈ (s.after es).registry.entries ∧ entry.model = p.model
  /-- What is there has been brought by a call that did not find it. -/
  brought : ∀ entry ∈ (s.after es).registry.entries, ∃ xs id p, Enters s es xs id p ∧
    (s.after xs).registry.find? p.model = none ∧ Obtains s es id p entry

theorem Untouched.accurate_of_none (hs : s.Untouched) {xs : List Event} (h : s.admitted xs = []) :
    Accurate s xs := by
  have hempty := hs.entries_eq h
  refine ⟨?_, fun id p entry hob => ?_, fun entry hentry => ?_⟩
  · rw [hempty]
    exact List.nodup_nil
  · have hmem := hs.mem_admitted ⟨_, result?_eq_some.1 hob.result, Stage.noConfusion⟩
    rw [h] at hmem
    cases hmem
  · rw [hempty] at hentry
    cases hentry

section Call

variable {xs ys : List Event} {id : TaskId} {p : Profile}

theorem Accurate.brought_after (h : Accurate s xs) (henters : Enters s ys xs id p)
    {entry : EngineEntry} (hentry : entry ∈ (s.after xs).registry.entries) :
    ∃ zs j q, Enters s ys zs j q ∧ (s.after zs).registry.find? q.model = none ∧
      Obtains s ys j q entry := by
  obtain ⟨zs, j, q, hj, habsent, hob⟩ := h.brought entry hentry
  obtain ⟨later, rfl⟩ := henters.split
  exact ⟨zs, j, q, hj.append _, habsent, hob.append _⟩

/-- Every call keeps the registry accurate. -/
theorem Accurate.of_enters (h : Accurate s xs) (hs : s.Untouched) (henters : Enters s ys xs id p)
    (hids : s.admitted ys = s.admitted xs ++ [id]) : Accurate s ys := by
  have hlast : (s.admitted ys).getLast? = some id := by rw [hids, List.getLast?_concat]
  -- What has succeeded is what the last call has brought, or it was there before.
  have hobtained : ∀ {j q entry}, Obtains s ys j q entry →
      j = id ∧ q = p ∨ entry ∈ (s.after xs).registry.entries ∧ entry.model = q.model := by
    intro j q entry hob
    by_cases hj : j = id
    · subst hj
      cases hob.job.symm.trans henters.job_after
      exact Or.inl ⟨rfl, rfl⟩
    · exact Or.inr (h.stored j q entry (henters.obtains_of_ne hs hids hob hj))
  rcases henters.registry hs hlast with ⟨hregistry, hfound⟩ | ⟨habsent, hcreated, hregistry⟩
  · refine ⟨?_, fun j q entry hob => ?_, fun entry hentry => ?_⟩
    · rw [hregistry]
      exact h.unique
    · rw [hregistry]
      rcases hobtained hob with ⟨rfl, rfl⟩ | hold
      · exact mem_of_find? (hfound entry hob)
      · exact hold
    · rw [hregistry] at hentry
      exact h.brought_after henters hentry
  · refine ⟨?_, fun j q entry hob => ?_, fun entry hentry => ?_⟩
    · rw [hregistry, Registry.insert, List.map_append, List.nodup_append]
      refine ⟨h.unique, List.pairwise_singleton _ _, ?_⟩
      rintro a ha b hb rfl
      rw [List.map_singleton, List.mem_singleton] at hb
      subst hb
      exact find?_eq_none.1 habsent ha
    · rw [hregistry]
      rcases hobtained hob with ⟨rfl, rfl⟩ | ⟨hmem, hmodel⟩
      · cases hob.result.symm.trans hcreated.result
        exact ⟨List.mem_append_right _ List.mem_cons_self, rfl⟩
      · exact ⟨List.mem_append_left _ hmem, hmodel⟩
    · rw [hregistry] at hentry
      rcases List.mem_append.1 hentry with hold | hone
      · exact h.brought_after henters hold
      · rw [List.mem_singleton.1 hone]
        exact ⟨xs, id, p, henters, habsent, hcreated⟩

end Call

theorem Untouched.accurate (hs : s.Untouched) {es : List Event} (hall : AllObtain es) :
    Accurate s es :=
  hs.entry_induction hall (fun _ => hs.accurate_of_none) fun _ _ _ _ henters hids h =>
    h.of_enters hs henters hids

end Run

/-! ## The account -/

section Models

variable {registry : Registry}

theorem models_perm (registry : Registry) :
    registry.models.Perm (registry.entries.map (·.model)) := List.mergeSort_perm _ _

theorem pairwise_le_mergeSort (names : List String) :
    (names.mergeSort fun a b => decide (a ≤ b)).Pairwise (· ≤ ·) := by
  refine (List.pairwise_mergeSort ?_ ?_ names).imp fun h => of_decide_eq_true h
  · intro a b c hab hbc
    simp only [decide_eq_true_eq] at hab hbc ⊢
    exact String.le_trans hab hbc
  · intro a b
    simpa using String.le_total a b

theorem models_sorted (hunique : (registry.entries.map (·.model)).Nodup) :
    registry.models.Pairwise (· < ·) := by
  have hle : registry.models.Pairwise (· ≤ ·) := pairwise_le_mergeSort _
  have hne : registry.models.Pairwise (· ≠ ·) := (models_perm registry).nodup_iff.2 hunique
  exact hle.imp₂ (fun _ _ h h' => Std.lt_of_le_of_ne h h') hne

end Models

/-- What a run says about the registry. -/
structure CacheAccount (s : Service) (es : List Event) : Prop where
  /-- Calls are made one after another. -/
  serial : ∀ xs id p, Enters s es xs id p →
    ∀ j ∈ s.admitted xs, ∃ r, (s.after xs).result? j = some r
  /-- A call finds the engine or sets it up, as far as the engine goes along. -/
  course : ∀ xs id p, Enters s es xs id p → Obtaining s (s.after xs).registry id p es
  /-- A call that has not succeeded leaves the entries as it has found them. -/
  failed : ∀ xs id p, Enters s es xs id p → (s.admitted es).getLast? = some id →
    (∀ entry, ¬Obtains s es id p entry) → (s.after es).registry = (s.after xs).registry
  /-- It creates the engine if no call for the model has succeeded before. -/
  again : ∀ xs id p, Enters s es xs id p →
    (∀ j q entry, Obtains s xs j q entry → q.model ≠ p.model) →
    (s.shown (calling id) es).head? = some (.create p.model)
  /-- What one call for a model has succeeded with, every later one gets without a call to the
  engine. -/
  cached : ∀ xs id p, Enters s es xs id p → ∀ j q entry, Obtains s xs j q entry →
    q.model = p.model → Obtains s es id p entry ∧ s.shown (calling id) es = []
  /-- Every entry is that of the first call for its model that succeeded, and the engine has
  accepted its options in order. -/
  entries : ∀ entry ∈ (s.after es).registry.entries, ∃ xs id p, Enters s es xs id p ∧
    (∀ j q other, Obtains s xs j q other → q.model ≠ p.model) ∧ Obtains s es id p entry ∧
    entry = ⟨p.model, s.settings.options p⟩ ∧
    s.shown (calling id) es = setupCalls s.settings p ∧
    s.shown (taking id) es = .replicate (setupCalls s.settings p).length .ok
  /-- What a call has succeeded with is the entry of its model. -/
  stored : ∀ id p entry, Obtains s es id p entry →
    (s.after es).registry.find? p.model = some entry ∧ entry.model = p.model
  unique : ((s.after es).registry.entries.map (·.model)).Nodup
  /-- A call touches no entry but that of its model. -/
  others : ∀ xs id p, Enters s es xs id p → (s.admitted es).getLast? = some id →
    ∀ model, model ≠ p.model →
      (s.after es).registry.find? model = (s.after xs).registry.find? model
  sorted : (s.after es).registry.models.Pairwise (· < ·)
  models : ∀ model, model ∈ (s.after es).registry.models ↔
    ∃ id p entry, p.model = model ∧ Obtains s es id p entry
  size : (s.after es).registry.models.length = (s.after es).registry.entries.length

section Account

variable {s : Service} {es xs : List Event} {id : TaskId} {p : Profile}

/-- A model has an entry if and only if a call for it has succeeded. -/
theorem Accurate.find?_eq_none (h : Accurate s es) {model : String} :
    (s.after es).registry.find? model = none ↔
      ∀ j q entry, Obtains s es j q entry → q.model ≠ model := by
  rw [Service.find?_eq_none]
  constructor
  · rintro habsent j q entry hob rfl
    obtain ⟨hmem, hmodel⟩ := h.stored j q entry hob
    exact habsent (hmodel ▸ List.mem_map_of_mem hmem)
  · intro hnone hmem
    obtain ⟨entry, hentry, rfl⟩ := List.mem_map.1 hmem
    obtain ⟨_, j, q, -, -, hob⟩ := h.brought entry hentry
    exact hnone j q entry hob (h.stored j q entry hob).2.symm

/-- A call that does not find the engine creates it first. -/
theorem Enters.head?_calling (h : Enters s es xs id p) (hs : s.Untouched)
    (habsent : (s.after xs).registry.find? p.model = none) :
    (s.shown (calling id) es).head? = some (.create p.model) := by
  have hhead : ∀ {setup : Setup} {made : List EngineCall},
      setupCalls s.settings p = made ++ setup.ahead s.settings p →
      (made ++ [setup.call p.model]).head? = some (.create p.model) := by
    intro setup made hsplit
    cases made with
    | nil => cases setup <;> cases hsplit; rfl
    | cons c made =>
      rw [setupCalls, List.cons_append] at hsplit
      rw [← (List.cons.inj hsplit).1]
      rfl
  cases h.obtaining hs with
  | found hfind => cases habsent.symm.trans hfind
  | created _ hst =>
    rw [hst.calls_eq]
    rfl
  | underway _ _ hsplit hst | failed _ hsplit hst | crashed _ hsplit hst =>
    rw [hst.calls_eq]
    exact hhead hsplit

/-- A call that finds the engine gets it without a call. -/
theorem Enters.obtains_of_found (h : Enters s es xs id p) (hs : s.Untouched)
    {entry : EngineEntry} (hfind : (s.after xs).registry.find? p.model = some entry) :
    Obtains s es id p entry ∧ s.shown (calling id) es = [] := by
  cases h.obtaining hs with
  | found hfound hst =>
    cases hfind.symm.trans hfound
    exact ⟨⟨h.job_after, result?_eq_some.2 hst.stage_eq⟩, hst.calls_eq⟩
  | underway habsent | created habsent | failed habsent | crashed habsent =>
    cases hfind.symm.trans habsent

theorem Enters.created (h : Enters s es xs id p) (hs : s.Untouched)
    (habsent : (s.after xs).registry.find? p.model = none)
    {entry : EngineEntry} (hob : Obtains s es id p entry) :
    entry = ⟨p.model, s.settings.options p⟩ ∧
      s.shown (calling id) es = setupCalls s.settings p ∧
      s.shown (taking id) es =
        .replicate (setupCalls s.settings p).length .ok := by
  have hstage := result?_eq_some.1 hob.result
  cases h.obtaining hs with
  | found hfind => cases habsent.symm.trans hfind
  | created _ hst =>
    cases hstage.symm.trans hst.stage_eq
    exact ⟨rfl, hst.calls_eq, hst.results_eq⟩
  | underway _ _ _ hst | failed _ _ hst | crashed _ _ hst => cases hstage.symm.trans hst.stage_eq

end Account

/-- The registry holds what the successful calls have brought, and nothing else. -/
theorem cache_account (settings : EngineSettings) (table : Table) (policy : FailurePolicy)
    (es : List Event) (hall : AllObtain es) :
    CacheAccount (new settings table policy) es := by
  have hs := untouched_new settings table policy
  have h := hs.accurate hall
  -- What holds at the end of a run holds whenever a call is let in: that is a run, too.
  have hxs : ∀ {xs id p}, Enters (new settings table policy) es xs id p →
      Accurate (new settings table policy) xs := fun henters =>
    hs.accurate (hall.of_enters henters)
  refine ⟨fun xs id p henters j hj => henters.finished hs hj,
    fun xs id p henters => henters.obtaining hs, ?_, ?_, ?_, ?_, ?_, h.unique, ?_,
    models_sorted h.unique, ?_, ?_⟩
  · intro xs id p henters hlast hno
    rcases henters.registry hs hlast with ⟨hsame, -⟩ | ⟨-, hcreated, -⟩
    · exact hsame
    · exact absurd hcreated (hno _)
  · intro xs id p henters hno
    exact henters.head?_calling hs ((hxs henters).find?_eq_none.2 hno)
  · intro xs id p henters j q entry hob hmodel
    obtain ⟨hmem, hentry⟩ := (hxs henters).stored j q entry hob
    have hfind := find?_of_mem (hxs henters).unique hmem
    rw [hentry, hmodel] at hfind
    exact henters.obtains_of_found hs hfind
  · intro entry hentry
    obtain ⟨xs, id, p, henters, habsent, hob⟩ := h.brought entry hentry
    exact ⟨xs, id, p, henters, (hxs henters).find?_eq_none.1 habsent, hob,
      henters.created hs habsent hob⟩
  · intro id p entry hob
    obtain ⟨hmem, hmodel⟩ := h.stored id p entry hob
    exact ⟨hmodel ▸ find?_of_mem h.unique hmem, hmodel⟩
  · intro xs id p henters hlast model hne
    rcases henters.registry hs hlast with ⟨hsame, -⟩ | ⟨-, -, hinsert⟩
    · rw [hsame]
    · rw [hinsert, find?_insert_of_ne hne.symm]
  · intro model
    rw [(models_perm _).mem_iff, List.mem_map]
    constructor
    · rintro ⟨entry, hentry, rfl⟩
      obtain ⟨_, id, p, -, -, hob⟩ := h.brought entry hentry
      exact ⟨id, p, entry, (h.stored id p entry hob).2.symm, hob⟩
    · rintro ⟨id, p, entry, rfl, hob⟩
      exact ⟨entry, h.stored id p entry hob⟩
  · rw [(models_perm _).length_eq, List.length_map]

/-- A profile of a model, at a temperature in halves. -/
def halves (model : String) (n : Nat) : Profile :=
  ⟨200, 0, 0, .ofRatio .single false n 2, model⟩

/-- The engine of one model is refused an option and set up at the second attempt, at another
temperature; that of another model cannot be started. -/
def retriedRun : List Event :=
  [.start (.obtain (halves "maia-1100.pb.gz" 1)), .start (.obtain (halves "maia-1100.pb.gz" 3)),
    .start (.obtain (halves "maia-1900.pb.gz" 1)), .start (.obtain (halves "maia-1100.pb.gz" 1)),
    .run 0, .run 1, .returned 0 .ok, .run 2, .returned 0 (.failed ["unknown option"]), .run 1,
    .run 3] ++ List.replicate 4 (.returned 1 .ok) ++
  [.run 2, .returned 2 (.failed ["no such file"]), .run 3]

/-- The last call gets the engine that the second one has set up. -/
theorem cache_of_retriedRun :
    AllObtain retriedRun ∧
      ((new .stock .stock .respond).after retriedRun).registry.models = ["maia-1100.pb.gz"] ∧
      CacheAccount (new .stock .stock .respond) retriedRun := by
  have hall : AllObtain retriedRun := by
    intro job hjob
    simp only [retriedRun, List.replicate, List.mem_append, List.mem_cons, List.not_mem_nil,
      Event.start.injEq, reduceCtorEq, or_false, or_self] at hjob
    rcases hjob with rfl | rfl | rfl | rfl <;> exact ⟨_, rfl⟩
  exact ⟨hall, by decide +kernel, cache_account .stock .stock .respond retriedRun hall⟩

end Sparring.Service
