import Sparring.Proofs.Engine.Relay
import Sparring.Proofs.Service.Origins

/-!
# What engines are called for

Whatever an engine is called for in a run can be traced back to where it comes from. A request only
makes the calls of its own block (`call_mem_of_effects`), and whatever a task is about, the options
that it sets are those of the settings and of a profile (`fits_of_effects`).
-/

namespace Sparring

/-- Whether a call sets no options but those of the settings and of a profile of its model. -/
def EngineCall.Fits (settings : EngineSettings) : EngineCall → Prop
  | setOption model name value =>
    ∃ p : Profile, p.model = model ∧ (name, value) ∈ settings.options p
  | create _ | newGame _ | setPosition .. | go .. => True

theorem option_mem_of_setupCalls {settings : EngineSettings} {p : Profile}
    {model name value : String}
    (h : .setOption model name value ∈ Service.setupCalls settings p) :
    p.model = model ∧ (name, value) ∈ settings.options p := by
  simp only [Service.setupCalls, List.mem_cons, List.not_mem_nil, or_false, reduceCtorEq,
    false_or, EngineCall.setOption.injEq] at h
  rcases h with ⟨rfl, rfl, rfl⟩ | ⟨rfl, rfl, rfl⟩ | ⟨rfl, rfl, rfl⟩ <;>
    simp [EngineSettings.options]

theorem fits_of_mem_setupCalls {settings : EngineSettings} {p : Profile} {c : EngineCall}
    (h : c ∈ Service.setupCalls settings p) : c.Fits settings := by
  cases c with
  | setOption => exact ⟨p, option_mem_of_setupCalls h⟩
  | create | newGame | setPosition | go => trivial

namespace Service

/-! ## Setups keep to the options -/

theorem covers_of_seek {s : Service} {job : Job} {q p : Profile} {rest rest' : List Profile}
    {setup : Setup} (h : s.seek job q rest = .setup p rest' setup) :
    setup.Covers s.settings p := by
  unfold seek at h
  split at h
  · cases job <;> cases h
  · cases h
    trivial

theorem covers_of_seekAll {s : Service} {job : Job} {ps : List Profile} {p : Profile}
    {rest : List Profile} {setup : Setup} (h : s.seekAll job ps = .setup p rest setup) :
    setup.Covers s.settings p := by
  cases ps with
  | nil => cases h
  | cons q ps => exact covers_of_seek h

theorem covers_of_firstStage {s : Service} {job : Job} {p : Profile} {rest : List Profile}
    {setup : Setup} (h : s.firstStage job = .setup p rest setup) : setup.Covers s.settings p := by
  cases job with
  | listModels => cases h
  | preload => exact covers_of_seekAll h
  | move | obtain | place => exact covers_of_seek h

theorem covers_of_answer {s : Service} {job : Job} {stage : Stage} {r : CallResult} {turn : Turn}
    (hstage : ∀ p rest setup, stage = .setup p rest setup → setup.Covers s.settings p)
    (hturn : s.answer job stage r = some turn) {p : Profile} {rest : List Profile} {setup : Setup}
    (h : turn.stage = .setup p rest setup) : setup.Covers s.settings p := by
  cases r with
  | failed | crashed =>
    obtain ⟨c, -, rfl⟩ := Option.map_eq_some_iff.1 hturn
    cases stage <;> cases h
  | ok =>
    cases stage with
    | setup q qs old =>
      simp only [answer, succeed] at hturn
      split at hturn <;> cases hturn
      next hnext =>
        cases h
        exact (covers_of_next (hstage _ _ _ rfl)).1 _ hnext
      next => cases job <;> cases h
    | startingGame q qs =>
      cases job <;> cases hturn <;> first | exact covers_of_seekAll h | cases h
    | positioning q fen =>
      have harm : (s.arm q).stage ≠ .setup p rest setup := by
        unfold arm
        split <;> exact Stage.noConfusion
      cases job <;> cases hturn <;> first | exact absurd h harm | cases h
    | submitting q n =>
      cases hturn
      cases h
    | waiting | thinking | finished => cases hturn

/-- A setup keeps to the options of its profile, whatever its task is about. -/
theorem covers_after {s : Service} (hnew : ∀ id, s.stage? id = none) {es : List Event}
    {id : TaskId} {p : Profile} {rest : List Profile} {setup : Setup}
    (h : (s.after es).stage? id = some (.setup p rest setup)) : setup.Covers s.settings p := by
  induction es using List.reverseRecOn generalizing p rest setup with
  | nil => cases (hnew id).symm.trans h
  | append_singleton es e ih =>
    have hsettings := (settings_of_terms (terms_after s es)).1
    rw [after_concat] at h
    generalize hstage : Stage.setup p rest setup = stage at h
    cases reached_step h with
    | stayed hold => exact ih (hstage ▸ hold)
    | arrived | told => cases hstage
    | entered => exact hsettings ▸ covers_of_firstStage hstage.symm
    | answered _ ht _ hturn =>
      rw [← hsettings]
      refine covers_of_answer (fun q qs old hold => ?_) hturn hstage.symm
      rw [hsettings]
      exact ih (hold ▸ stage?_of_task ht)

end Service

namespace System

variable {σ ε : Type} [Backend σ ε]

theorem relayed_append (s : System σ) (xs ys : List (Event ε)) :
    s.relayed (xs ++ ys) = s.relayed xs ++ (s.after xs).relayed ys := observe_append ..

theorem effects_append (s : System σ) (xs ys : List (Event ε)) :
    s.effects (xs ++ ys) = s.effects xs ++ (s.after xs).effects ys := observe_append ..

theorem effects_concat (s : System σ) (es : List (Event ε)) (e : Event ε) :
    s.effects (es ++ [e]) = s.effects es ++ (s.after es).effect e := observe_concat ..

/-- A call that a task makes in a run is the effect of an event that the service sees. -/
theorem exists_of_mem_effects {s : System σ} {es : List (Event ε)} {a : Service.Effect}
    (h : a ∈ s.effects es) : ∃ xs e ys, s.relayed es = xs ++ e :: ys ∧
      ((s.service.after xs).step e).2 = some a := by
  obtain ⟨before, e, later, rfl, he⟩ := mem_observe.1 h
  obtain ⟨e', hseen, ha⟩ := List.mem_flatMap.1 he
  rw [Option.mem_toList] at hseen ha
  refine ⟨s.relayed before, e', ((s.after before).step e).relayed later, ?_, ?_⟩
  · rw [relayed_append]
    have hrelay : (s.after before).relay e = some e' := hseen
    simp [relayed, observe, hrelay]
  · have hafter : (s.after before).service = s.service.after (s.relayed before) :=
      service_after s before
    rw [← hafter]
    exact ha

/-- What a task that is a request calls belongs to its position and its profile. -/
theorem call_mem_of_effects {s : System σ} {es : List (Event ε)} {id : TaskId} {c : EngineCall}
    {fen : String} {difficulty : Double} (hnew : s.service.stage? id = none)
    (hjob : (s.service.after (s.relayed es)).job? id = some (.move fen difficulty))
    (hc : .call id c ∈ s.effects es) :
    c ∈ Service.setupCalls s.service.settings (s.service.table.resolve difficulty) ∨
      ∃ n, c ∈ Service.searchCalls (s.service.table.resolve difficulty) fen n := by
  obtain ⟨xs, e, ys, hsplit, hcall⟩ := exists_of_mem_effects hc
  rw [hsplit] at hjob
  exact Service.call_mem_of_within hnew hjob hcall

theorem fits_of_effects {s : System σ} (hnew : ∀ id, s.service.stage? id = none)
    {es : List (Event ε)} {id : TaskId} {c : EngineCall} (h : .call id c ∈ s.effects es) :
    c.Fits s.service.settings := by
  obtain ⟨xs, e, ys, -, hcall⟩ := exists_of_mem_effects h
  obtain ⟨stage, hstage, hc⟩ := Service.stage?_of_call hcall
  rw [← Service.after_concat] at hstage
  cases stage with
  | setup p rest setup =>
    cases hc
    exact fits_of_mem_setupCalls
      (Service.call_mem_of_covers (Service.covers_after hnew hstage))
  | startingGame | positioning | submitting =>
    cases hc
    trivial
  | waiting | thinking | finished => cases hc

end System

end Sparring
