import Sparring.Proofs.Service.Obtaining
import Sparring.Proofs.Service.Stock

/-!
# The course of a preload

A preload goes through the models of the table in order: it sets up the engine of a model if the
registry does not have it, and starts a game on it. If all calls succeed, these are the calls of
`preloadCalls`, and the registry has been supplied with all models (`Registry.supplyAll`); the first
call that does not succeed is the end of the preload.

The invariant (`Preloading`) splits the models into those that are done, the one at hand and the
others. The models of a table are distinct, so whether the one at hand is missing can be told from
the registry that the preload has found.
-/

namespace Sparring

/-! ## Supplying a registry -/

namespace Registry

/-- The registry with the engine of a profile. -/
def supply (settings : EngineSettings) (r : Registry) (p : Profile) : Registry :=
  if r.contains p.model then r else r.insert ⟨p.model, settings.options p⟩

/-- The registry with the engines of a row of profiles. -/
def supplyAll (settings : EngineSettings) (r : Registry) (ps : List Profile) : Registry :=
  ps.foldl (supply settings) r

variable {settings : EngineSettings} {r : Registry} {p : Profile} {ps : List Profile}
  {model : String}

theorem contains_supply :
    (r.supply settings p).contains model = true ↔ r.contains model = true ∨ model = p.model := by
  unfold supply
  split
  next hp =>
    have hsame : model = p.model → r.contains model = true := fun h => h ▸ hp
    tauto
  next => exact contains_insert

@[simp] theorem supplyAll_nil : r.supplyAll settings [] = r := rfl

theorem supplyAll_concat :
    r.supplyAll settings (ps ++ [p]) = (r.supplyAll settings ps).supply settings p := by
  simp [supplyAll]

/-- What has been supplied is there, and nothing else has come. -/
theorem contains_supplyAll : (r.supplyAll settings ps).contains model = true ↔
    r.contains model = true ∨ model ∈ ps.map (·.model) := by
  induction ps using List.reverseRecOn with
  | nil => simp
  | append_singleton ps p ih =>
    rw [supplyAll_concat, contains_supply, ih, List.map_append, List.mem_append, or_assoc]
    simp

/-- An engine that was there does not come again. -/
theorem supplyAll_concat_of_contains (h : r.contains p.model = true) :
    r.supplyAll settings (ps ++ [p]) = r.supplyAll settings ps := by
  rw [supplyAll_concat]
  exact if_pos (contains_supplyAll.2 (Or.inl h))

theorem supplyAll_concat_of_missing (h : r.contains p.model = false)
    (hnew : p.model ∉ ps.map (·.model)) : r.supplyAll settings (ps ++ [p]) =
      (r.supplyAll settings ps).insert ⟨p.model, settings.options p⟩ := by
  rw [supplyAll_concat]
  refine if_neg ?_
  rw [contains_supplyAll, h]
  rintro (hno | hold)
  · cases hno
  · exact hnew hold

end Registry

namespace Service

/-! ## What a preload is to do -/

/-- The calls that get the engine of a profile, if all of them succeed. -/
def engineCalls (settings : EngineSettings) (r : Registry) (p : Profile) : List EngineCall :=
  if r.contains p.model then [] else setupCalls settings p

/-- The calls that a preload makes for a row of profiles if all of them succeed. -/
def preloadCalls (settings : EngineSettings) (r : Registry) (ps : List Profile) :
    List EngineCall :=
  ps.flatMap fun p => engineCalls settings r p ++ [.newGame p.model]

/-- What a preload reports the error of a call under. -/
def preloadContext : EngineCall → Causes
  | .create model => ["failed to start engine for model " ++ model]
  | .setOption model name _ => ["failed to set " ++ name ++ " for model " ++ model]
  | .newGame model => ["failed to start a game for " ++ model]
  | .setPosition .. | .go .. => []

/-- What comes of a preload when a call comes back. -/
def preloadResult (c : EngineCall) : CallResult → JobResult
  | .ok => .preloaded (.ok ())
  | .failed causes => .preloaded (.error (preloadContext c ++ causes))
  | .crashed message => .crashed message

theorem preloadCalls_append (settings : EngineSettings) (r : Registry) (ps qs : List Profile) :
    preloadCalls settings r (ps ++ qs) =
      preloadCalls settings r ps ++ preloadCalls settings r qs := List.flatMap_append

theorem preloadCalls_concat (settings : EngineSettings) (r : Registry) (ps : List Profile)
    (p : Profile) : preloadCalls settings r (ps ++ [p]) =
      preloadCalls settings r ps ++ engineCalls settings r p ++ [.newGame p.model] := by
  simp [preloadCalls]

theorem engineCalls_of_contains {settings : EngineSettings} {r : Registry} {p : Profile}
    (h : r.contains p.model = true) : engineCalls settings r p = [] := if_pos h

theorem engineCalls_of_missing {settings : EngineSettings} {r : Registry} {p : Profile}
    (h : r.contains p.model = false) : engineCalls settings r p = setupCalls settings p :=
  if_neg (Bool.eq_false_iff.1 h)

/-- Whatever a preload waits for, an error ends it. -/
theorem answer_of_refused (s : Service) (stage : Stage) {c : EngineCall}
    (hc : stage.call? = some c) (hprofiles : stage.profiles ≠ []) {result : CallResult}
    (hnot : result ≠ .ok) :
    s.answer .preload stage result = some (.to (.finished (preloadResult c result)) s) := by
  cases result with
  | ok => exact absurd rfl hnot
  | failed | crashed =>
    cases stage with
    | setup p rest setup => cases setup <;> cases hc <;> rfl
    | startingGame =>
      cases hc
      rfl
    | waiting | positioning | submitting | thinking | finished => exact absurd rfl hprofiles

/-- How a preload stands that was let in when the registry was the given one. -/
inductive Preloading (s : Service) (r : Registry) (id : TaskId) (es : List Event) : Prop
  /-- The engine of `p` was missing and is being set up. -/
  | configuring {done rest : List Profile} {p : Profile} {setup : Setup}
      {made : List EngineCall} :
    s.table.distinctModels = done ++ p :: rest → r.contains p.model = false →
    setup.Covers s.settings p → setupCalls s.settings p = made ++ setup.ahead s.settings p →
    Stands s es id (.setup p rest setup)
      (preloadCalls s.settings r done ++ made ++ [setup.call p.model])
      (.replicate (preloadCalls s.settings r done ++ made).length .ok)
      (r.supplyAll s.settings done) →
    Preloading s r id es
  /-- A game is being started on the engine of `p`. -/
  | starting {done rest : List Profile} {p : Profile} :
    s.table.distinctModels = done ++ p :: rest →
    Stands s es id (.startingGame p rest)
      (preloadCalls s.settings r done ++ engineCalls s.settings r p ++ [.newGame p.model])
      (.replicate (preloadCalls s.settings r done ++ engineCalls s.settings r p).length .ok)
      (r.supplyAll s.settings (done ++ [p])) →
    Preloading s r id es
  /-- All calls have succeeded. -/
  | complete :
    Stands s es id (.finished (.preloaded (.ok ())))
      (preloadCalls s.settings r s.table.distinctModels)
      (.replicate (preloadCalls s.settings r s.table.distinctModels).length .ok)
      (r.supplyAll s.settings s.table.distinctModels) →
    Preloading s r id es
  /-- A call for `p` has not succeeded. If none is left, the engine is there nevertheless. -/
  | halted {done rest : List Profile} {p : Profile} {made ahead : List EngineCall}
      {c : EngineCall} {result : CallResult} :
    s.table.distinctModels = done ++ p :: rest → result ≠ .ok →
    engineCalls s.settings r p ++ [.newGame p.model] = made ++ c :: ahead →
    Stands s es id (.finished (preloadResult c result))
      (preloadCalls s.settings r done ++ made ++ [c])
      (.replicate (preloadCalls s.settings r done ++ made).length .ok ++ [result])
      (r.supplyAll s.settings (if ahead = [] then done ++ [p] else done)) →
    Preloading s r id es

/-! ## One step -/

section Step

variable {s : Service} {es : List Event} {id : TaskId} {r : Registry} {stage : Stage}
  {calls : List EngineCall} {results : List CallResult} {registry : Registry}

/-- A preload that has done with some models turns to the others. -/
theorem preloading_seekAll {es' : List Event} {done ps : List Profile}
    (hsplit : s.table.distinctModels = done ++ ps)
    (hregistry : (s.after es).registry = r.supplyAll s.settings done)
    (h : Stands s es' id ((s.after es).seekAll .preload ps)
      (preloadCalls s.settings r done ++ ((s.after es).seekAll .preload ps).call?.toList)
      (.replicate (preloadCalls s.settings r done).length .ok) (r.supplyAll s.settings done)) :
    Preloading s r id es' := by
  -- All is done, or the next model has its engine, or the engine has to be set up.
  cases ps with
  | nil =>
    rw [List.append_nil] at hsplit
    subst hsplit
    refine .complete ?_
    simpa [seekAll, Stage.call?] using h
  | cons p rest =>
    have hnew := s.table.not_mem_of_distinct hsplit
    have hcontains : (s.after es).registry.contains p.model = r.contains p.model := by
      rw [hregistry, Bool.eq_iff_iff, Registry.contains_supplyAll]
      tauto
    cases hfind : (s.after es).registry.find? p.model with
    | some entry =>
      have hthere : r.contains p.model = true := by
        rw [← hcontains, Registry.contains, hfind]
        rfl
      have hseek : (s.after es).seekAll .preload (p :: rest) = .startingGame p rest := by
        simp [seekAll, seek, hfind, ready]
      rw [hseek, ← Registry.supplyAll_concat_of_contains hthere] at h
      refine .starting hsplit ?_
      rw [engineCalls_of_contains hthere, List.append_nil]
      exact h
    | none =>
      have hmissing : r.contains p.model = false := by
        rw [← hcontains, Registry.contains, hfind]
        rfl
      have hseek : (s.after es).seekAll .preload (p :: rest) = .setup p rest .creating := by
        simp [seekAll, seek, hfind]
      have hcovers : Setup.creating.Covers s.settings p := trivial
      rw [hseek] at h
      refine .configuring hsplit hmissing hcovers (List.nil_append _).symm ?_
      rw [List.append_nil]
      exact h

section Returned

variable {done rest : List Profile} {p : Profile}

theorem Preloading.setup_returned {setup : Setup} {made : List EngineCall}
    (hsplit : s.table.distinctModels = done ++ p :: rest) (hmissing : r.contains p.model = false)
    (hcovers : setup.Covers s.settings p)
    (hmade : setupCalls s.settings p = made ++ setup.ahead s.settings p)
    (h : Stands s es id (.setup p rest setup)
      (preloadCalls s.settings r done ++ made ++ [setup.call p.model])
      (.replicate (preloadCalls s.settings r done ++ made).length .ok)
      (r.supplyAll s.settings done))
    (ha : (s.after es).aborted = false) (hjob : (s.after es).job? id = some .preload)
    (result : CallResult) : Preloading s r id (es ++ [.returned id result]) := by
  have hsettings := settings_after s es
  have hengine : engineCalls s.settings r p = setupCalls s.settings p :=
    engineCalls_of_missing hmissing
  -- An error ends the preload. After a success the setup goes on, or the engine is there.
  by_cases hok : result = .ok
  · subst hok
    cases hnext : setup.next s.settings p with
    | more setup' =>
      have hturn : (s.after es).answer .preload (.setup p rest setup) .ok =
          some (.to (.setup p rest setup') (s.after es)) := by
        simp [answer, succeed, hsettings, hnext]
      have hstands := h.advance ha hjob hturn fun hregistry => hregistry
      rw [List.append_assoc _ made] at hstands
      refine .configuring hsplit hmissing ((covers_of_next hcovers).1 _ hnext) ?_ hstands
      rw [hmade, next_eq_more hnext, List.append_assoc, List.singleton_append]
    | ready entry =>
      have hturn : (s.after es).answer .preload (.setup p rest setup) .ok =
          some (.to (.startingGame p rest)
            { s.after es with registry := (s.after es).registry.insert entry }) := by
        simp [answer, succeed, hsettings, hnext, ready]
      have hsupplied : r.supplyAll s.settings (done ++ [p]) =
          (r.supplyAll s.settings done).insert entry := by
        rw [(covers_of_next hcovers).2 _ hnext]
        exact Registry.supplyAll_concat_of_missing hmissing (s.table.not_mem_of_distinct hsplit)
      have hstands := h.advance ha hjob hturn fun hregistry =>
        show (s.after es).registry.insert entry = r.supplyAll s.settings (done ++ [p]) by
          rw [hregistry, hsupplied]
      have hall : made ++ [setup.call p.model] = engineCalls s.settings r p := by
        rw [hengine, hmade, (next_eq_ready hnext).1]
      rw [List.append_assoc _ made, hall] at hstands
      exact .starting hsplit hstands
  · obtain ⟨ahead, hahead⟩ : ∃ ahead, setup.ahead s.settings p = setup.call p.model :: ahead := by
      cases setup <;> exact ⟨_, rfl⟩
    have hcalls : engineCalls s.settings r p ++ [.newGame p.model] =
        made ++ setup.call p.model :: (ahead ++ [.newGame p.model]) := by
      rw [hengine, hmade, hahead, List.append_assoc, List.cons_append]
    have hturn :=
      answer_of_refused (s.after es) (.setup p rest setup) rfl (List.cons_ne_nil _ _) hok
    refine .halted hsplit hok hcalls ?_
    rw [if_neg (List.concat_ne_nil _ _)]
    exact h.finish ha hjob hturn

theorem Preloading.newGame_returned (hsplit : s.table.distinctModels = done ++ p :: rest)
    (h : Stands s es id (.startingGame p rest)
      (preloadCalls s.settings r done ++ engineCalls s.settings r p ++ [.newGame p.model])
      (.replicate (preloadCalls s.settings r done ++ engineCalls s.settings r p).length .ok)
      (r.supplyAll s.settings (done ++ [p])))
    (hlast : (s.admitted es).getLast? = some id)
    (ha : (s.after es).aborted = false) (hjob : (s.after es).job? id = some .preload)
    (result : CallResult) : Preloading s r id (es ++ [.returned id result]) := by
  by_cases hok : result = .ok
  · subst hok
    have hturn : (s.after es).answer .preload (.startingGame p rest) .ok =
        some (.to ((s.after es).seekAll .preload rest) (s.after es)) := rfl
    have hstands := h.advance ha hjob hturn fun hregistry => hregistry
    rw [← preloadCalls_concat] at hstands
    refine preloading_seekAll ?_ (h.registry_eq hlast) hstands
    rw [hsplit, List.append_assoc, List.singleton_append]
  · have hturn :=
      answer_of_refused (s.after es) (.startingGame p rest) rfl (List.cons_ne_nil _ _) hok
    exact .halted hsplit hok rfl (h.finish ha hjob hturn)

end Returned

theorem Preloading.step (h : Preloading s r id es) (hq : Queued s es) (ho : (s.after es).Orderly)
    (hjob : (s.after es).job? id = some .preload) (e : Event) :
    Preloading s r id (es ++ [e]) := by
  have hfinished : ∀ {result calls results registry},
      Stands s es id (.finished result) calls results registry →
      Stands s (es ++ [e]) id (.finished result) calls results registry := fun h =>
    h.keep hq ho Stage.noConfusion rfl fun _ _ _ => rfl
  cases h with
  | complete h => exact .complete (hfinished h)
  | halted hsplit hnot hcalls h => exact .halted hsplit hnot hcalls (hfinished h)
  | configuring hsplit hmissing hcovers hmade h =>
    by_cases he : (s.after es).aborted = false ∧ ∃ result, e = .returned id result
    · obtain ⟨ha, result, rfl⟩ := he
      exact .setup_returned hsplit hmissing hcovers hmade h ha hjob result
    · exact .configuring hsplit hmissing hcovers hmade
        (h.keep hq ho Stage.noConfusion rfl fun ha r hr => absurd ⟨ha, r, hr⟩ he)
  | starting hsplit h =>
    by_cases he : (s.after es).aborted = false ∧ ∃ result, e = .returned id result
    · obtain ⟨ha, result, rfl⟩ := he
      have hlast := hq.last id (ho id _ h.stage_eq rfl)
      exact .newGame_returned hsplit h hlast ha hjob result
    · exact .starting hsplit
        (h.keep hq ho Stage.noConfusion rfl fun ha r hr => absurd ⟨ha, r, hr⟩ he)

theorem preloading_entered (hid : (s.after es).entering (.run id) = [id])
    (hjob : (s.after es).job? id = some .preload) :
    Preloading s (s.after es).registry id (es ++ [.run id]) := by
  have hstands := stands_entered hid hjob
  have hfirst : (s.after es).firstStage .preload =
      (s.after es).seekAll .preload s.table.distinctModels := by
    rw [← table_after s es]
    rfl
  rw [hfirst] at hstands
  exact preloading_seekAll (List.nil_append _).symm rfl hstands

end Step

/-- From the moment it is let in, a preload stands in one of these ways. -/
theorem preloading_after {s : Service} (ho : s.Orderly) (hfree : s.gate = .free)
    {xs ys : List Event} {id : TaskId} (hid : (s.after xs).entering (.run id) = [id])
    (hjob : (s.after xs).job? id = some .preload) :
    Preloading s (s.after xs).registry id (xs ++ .run id :: ys) := by
  induction ys using List.reverseRecOn with
  | nil => exact preloading_entered hid hjob
  | append_singleton ys e ih =>
    have hsplit : xs ++ .run id :: (ys ++ [e]) = (xs ++ .run id :: ys) ++ [e] := by simp
    rw [hsplit]
    refine ih.step (queued_after ho hfree _) (orderly_after ho _) ?_ e
    rw [after_append]
    exact job?_after hjob _

end Service

end Sparring
