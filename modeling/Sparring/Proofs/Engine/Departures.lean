import Sparring.Callers
import Sparring.Engine.Rehearsal
import Sparring.Proofs.Engine.Relay
import Sparring.Proofs.Service.Admission
import Sparring.Proofs.Service.Stranded

/-!
# Callers that leave

A caller leaves by dropping its future. If the future does the work itself, the work ends with it
(`result?_giveUp`), and the gate passes to the next (`holder?_giveUp`). If the future is one of a
move and has been polled, it is only a handle that is dropped. Under a runtime that detaches tasks
the run with such departures and the same run without them cannot be told apart: engines are
called and told the same, requests are let in in the same order, the systems go through the same
states, and the callers that stay get the same results (`departures_unnoticed`). Under another
runtime they can.

The two runs are kept together by a relation (`Alike`). The systems are the same, and so are the
futures, but that one may be dropped in the first run and polled in the second. A poll of such a
future only waits for a task, and does nothing to the system.
-/

namespace Sparring

namespace System

variable {σ ε : Type} [Backend σ ε]

/-! ## Work that is given up -/

section GiveUp

variable {s : System σ} {id : TaskId} {t : Task}

theorem giveUp_of_task (ha : s.service.aborted = false) (ht : s.service.tasks[id]? = some t)
    (hgoing : ∀ r, t.stage ≠ .finished r) :
    s.giveUp id = ⟨s.service.giveUp id t, Backend.giveUp s.engines id⟩ := by
  have hgo : ¬s.service.aborted = true := by simp [ha]
  unfold giveUp
  rw [if_neg hgo, ht]
  obtain ⟨job, stage⟩ := t
  cases stage with
  | finished r => exact absurd rfl (hgoing r)
  | waiting | setup | startingGame | positioning | submitting | thinking => rfl

theorem result?_giveUp (ha : s.service.aborted = false) (ht : s.service.tasks[id]? = some t)
    (hgoing : ∀ r, t.stage ≠ .finished r) :
    (s.giveUp id).service.result? id = some (t.job.failed []) := by
  rw [giveUp_of_task ha ht hgoing, Service.result?_eq_some, Service.giveUp, Service.stage?_move,
    if_pos ⟨rfl, Service.not_fatal_to _ _⟩]
  have hstage : s.service.stage? id = some t.stage := Service.stage?_of_task ht
  exact congrArg (Option.map fun _ => Stage.finished (t.job.failed [])) hstage

theorem gate_giveUp (ha : s.service.aborted = false) (ht : s.service.tasks[id]? = some t)
    (hgoing : ∀ r, t.stage ≠ .finished r) :
    (s.giveUp id).service.gate = s.service.gate.leave (.task id) := by
  rw [giveUp_of_task ha ht hgoing, Service.giveUp, Service.gate_move,
    if_neg (Service.not_fatal_to _ _)]
  rfl

/-- If whoever has the gate gives its work up, the gate passes to the first of those who wait. -/
theorem holder?_giveUp (ha : s.service.aborted = false) (ht : s.service.tasks[id]? = some t)
    (hgoing : ∀ r, t.stage ≠ .finished r) (hholds : s.service.gate.holder? = some (.task id)) :
    (s.giveUp id).service.gate.holder? = s.service.gate.queue.head? ∧
      (s.giveUp id).service.gate.queue = s.service.gate.queue.tail := by
  rw [gate_giveUp ha ht hgoing]
  exact Gate.leave_of_holder hholds

end GiveUp

/-- A task that is detached goes on as before. -/
theorem dropHandle_of_detaches {rt : Runtime} (hrt : rt.Detaches) (s : System σ) (id : TaskId) :
    s.dropHandle rt id = s := by
  have hstep : s.service.step (.hangUp id) = (s.service, none) := by
    unfold Service.step
    split <;> rfl
  have hkeeps : ¬rt.cancels id = true := by simp [hrt id]
  rw [dropHandle, if_neg hkeeps, step, serve, hstep]

/-- The tasks that have been let in through the gate in a run, in order. -/
def admitted (s : System σ) (es : List (Event ε)) : List TaskId :=
  observe step (fun s e => (s.relay e).toList.flatMap s.service.entering) s es

end System

/-! ## Futures of moves -/

/-- Whether a job is to find a move. -/
def Job.isMove : Job → Bool
  | move .. => true
  | _ => false

theorem Job.owner_eq_task {job : Job} : job.owner = .task ↔ job.isMove = true := by
  cases job <;> simp [owner, isMove]

namespace Future

/-- Whether a future has not been polled. -/
def isFresh (f : Future) : Bool :=
  match f.state with
  | .fresh => true
  | _ => false

/-- Once it has been polled, the future of a move only waits for its task. -/
theorem turns_of_polled {ε : Type} {f : Future} (hmove : f.job.isMove = true)
    (hpolled : f.isFresh = false) (next : TaskId) :
    (f.turns next : List (System.Event ε)) = [] := by
  obtain ⟨job, state⟩ := f
  have howner : job.owner = .task := Job.owner_eq_task.2 hmove
  cases state with
  | fresh => cases hpolled
  | pending | ready | dropped => simp [turns, howner]

end Future

namespace Callers

variable {σ ε : Type} [Backend σ ε]

/-! ## Runs -/

/-- The callers and their system after a run. -/
def after (rt : Runtime) (c : Callers σ) (es : List (Event ε)) : Callers σ := es.foldl (step rt) c

@[simp] theorem after_nil (rt : Runtime) (c : Callers σ) : c.after rt ([] : List (Event ε)) = c :=
  rfl

theorem after_concat (rt : Runtime) (c : Callers σ) (es : List (Event ε)) (e : Event ε) :
    c.after rt (es ++ [e]) = (c.after rt es).step rt e := List.foldl_append

/-- What an event has the system do. The dropping of a future is none of it. -/
def turns (c : Callers σ) : Event ε → List (System.Event ε)
  | .poll k => (c.futures[k]?).toList.flatMap (·.turns c.system.service.tasks.length)
  | .run id => if (c.system.service.tasks[id]?).any (·.job.owner = .task) then [.run id] else []
  | .engine e => [.engine e]
  | .call _ | .drop _ => []

/-- What the service does outside in a run: it calls engines, and tells them what has become of
their completions. -/
def effects (rt : Runtime) (c : Callers σ) (es : List (Event ε)) : List Service.Effect :=
  observe (step rt) (fun c e => c.system.effects (c.turns e)) c es

/-- The tasks that have been let in through the gate in a run, in order. -/
def admitted (rt : Runtime) (c : Callers σ) (es : List (Event ε)) : List TaskId :=
  observe (step rt) (fun c e => c.system.admitted (c.turns e)) c es

/-- The future that one of the given callers drops in an event. -/
def departing (gone : Nat → Bool) (c : Callers σ) : Event ε → List Future
  | .drop k => if gone k then (c.futures[k]?).toList else []
  | _ => []

/-- The futures that the given callers drop in a run, each as it stands when it is dropped. -/
def departed (rt : Runtime) (gone : Nat → Bool) (c : Callers σ) (es : List (Event ε)) :
    List Future :=
  observe (step rt) (departing gone) c es

theorem departed_append (rt : Runtime) (gone : Nat → Bool) (c : Callers σ)
    (xs ys : List (Event ε)) : c.departed rt gone (xs ++ ys) =
      c.departed rt gone xs ++ (c.after rt xs).departed rt gone ys := observe_append ..

/-- Whether an event is the departure of one of the given callers. -/
def Event.departs (gone : Nat → Bool) : Event ε → Bool
  | .drop k => gone k
  | _ => false

/-- The run without the departures of the given callers. -/
def staying (gone : Nat → Bool) (es : List (Event ε)) : List (Event ε) :=
  es.filter fun e => !e.departs gone

theorem eq_drop_of_departs {gone : Nat → Bool} {e : Event ε} (h : e.departs gone = true) :
    ∃ k, e = .drop k ∧ gone k = true := by
  cases e with
  | drop k => exact ⟨k, rfl, h⟩
  | call | poll | run | engine => cases h

theorem staying_concat_of_departs {gone : Nat → Bool} {e : Event ε} (he : e.departs gone = true)
    (es : List (Event ε)) : staying gone (es ++ [e]) = staying gone es := by
  simp [staying, he]

theorem staying_concat {gone : Nat → Bool} {e : Event ε} (he : e.departs gone = false)
    (es : List (Event ε)) : staying gone (es ++ [e]) = staying gone es ++ [e] := by
  simp [staying, he]

/-! ## Two worlds at once -/

/-- How a future stands to its counterpart in a run in which its caller, if it is `gone`, stays. -/
inductive Counterpart (gone : Bool) : Option Future → Option Future → Prop
  | same (f : Option Future) : Counterpart gone f f
  /-- The future of a move has been dropped in the first run and polled in both. -/
  | left {f : Future} : gone = true → f.job.isMove = true → f.isFresh = false →
    Counterpart gone (some ⟨f.job, .dropped⟩) (some f)

/-- Whether two worlds are the same but for the futures that some callers have dropped. -/
structure Alike (gone : Nat → Bool) (a b : Callers σ) : Prop where
  system_eq : a.system = b.system
  length_eq : a.futures.length = b.futures.length
  future : ∀ k, Counterpart (gone k) a.futures[k]? b.futures[k]?

theorem futures_advance_self (c : Callers σ) (k : Nat) (state : FutureState) :
    (c.advance k state).futures[k]? = (c.futures[k]?).map fun f => { f with state } :=
  List.getElem?_modify_eq ..

theorem futures_advance_of_ne {k j : Nat} (hj : j ≠ k) (c : Callers σ) (state : FutureState) :
    (c.advance k state).futures[j]? = c.futures[j]? :=
  List.getElem?_modify_ne _ _ hj.symm

@[simp] theorem length_advance (c : Callers σ) (k : Nat) (state : FutureState) :
    (c.advance k state).futures.length = c.futures.length := List.length_modify ..

section Alike

variable {rt : Runtime} {gone : Nat → Bool} {a b : Callers σ} {k : Nat} {f : Future}

theorem Alike.refl (gone : Nat → Bool) (c : Callers σ) : Alike gone c c :=
  ⟨rfl, rfl, fun _ => .same _⟩

/-- Two worlds in which only one future has changed stay alike if that one has its counterpart. -/
theorem Alike.of_place (h : Alike gone a b) {a' b' : Callers σ}
    (hsystem : a'.system = b'.system) (hlength : a'.futures.length = b'.futures.length)
    (hplace : Counterpart (gone k) a'.futures[k]? b'.futures[k]?)
    (hothers : ∀ j, j ≠ k → a'.futures[j]? = a.futures[j]? ∧ b'.futures[j]? = b.futures[j]?) :
    Alike gone a' b' := by
  refine ⟨hsystem, hlength, fun j => ?_⟩
  by_cases hj : j = k
  · exact hj ▸ hplace
  · rw [(hothers j hj).1, (hothers j hj).2]
    exact h.future j

theorem Alike.advance (h : Alike gone a b) (hk : a.futures[k]? = b.futures[k]?)
    (system : System σ) (state : FutureState) :
    Alike gone ({ a with system }.advance k state) ({ b with system }.advance k state) := by
  refine h.of_place rfl (by simp [h.length_eq]) ?_ fun j hj =>
    ⟨futures_advance_of_ne hj _ _, futures_advance_of_ne hj _ _⟩
  rw [futures_advance_self, futures_advance_self]
  simp only [hk]
  exact .same _

/-- A future that has been dropped in the first world comes further in the second. -/
theorem Alike.advance_right (h : Alike gone a b) (hgone : gone k = true)
    (hmove : f.job.isMove = true) (ha : a.futures[k]? = some ⟨f.job, .dropped⟩)
    (hb : b.futures[k]? = some f) {state : FutureState}
    (hstate : (⟨f.job, state⟩ : Future).isFresh = false) :
    Alike gone a (b.advance k state) := by
  refine h.of_place h.system_eq (by simp [h.length_eq]) ?_ fun j hj =>
    ⟨rfl, futures_advance_of_ne hj _ _⟩
  rw [futures_advance_self, ha, hb]
  exact Counterpart.left (f := ⟨f.job, state⟩) hgone hmove hstate

/-- A future that has been polled is dropped in the first world. -/
theorem Alike.advance_left (h : Alike gone a b) (hgone : gone k = true)
    (hmove : f.job.isMove = true) (hpolled : f.isFresh = false) (ha : a.futures[k]? = some f) :
    Alike gone (a.advance k .dropped) b := by
  refine h.of_place h.system_eq (by simp [h.length_eq]) ?_ fun j hj =>
    ⟨futures_advance_of_ne hj _ _, rfl⟩
  have hk := h.future k
  rw [ha] at hk
  rw [futures_advance_self, ha]
  generalize b.futures[k]? = fb at hk
  -- The counterpart is this future, or one that was left before.
  cases hk with
  | same => exact .left hgone hmove hpolled
  | left _ hmove' hpolled' => exact .left hgone hmove' hpolled'

theorem Alike.poll (h : Alike gone a b) (ha : a.futures[k]? = some f)
    (hb : b.futures[k]? = some f) : Alike gone (a.poll k f) (b.poll k f) := by
  unfold Callers.poll
  rw [h.system_eq]
  simp only
  split
  · exact h
  · exact h.advance (ha.trans hb.symm) _ _

/-- The poll of a future that has been dropped in the first world finds the task or does not, and
that is all it does. -/
theorem Alike.poll_right (h : Alike gone a b) (hgone : gone k = true)
    (hmove : f.job.isMove = true) (hpolled : f.isFresh = false)
    (ha : a.futures[k]? = some ⟨f.job, .dropped⟩) (hb : b.futures[k]? = some f) :
    Alike gone a (b.poll k f) := by
  have hturns := Future.turns_of_polled (ε := ε) hmove hpolled b.system.service.tasks.length
  unfold Callers.poll
  simp only [hturns, System.steps, List.foldl_nil]
  split
  · exact h
  · refine h.advance_right hgone hmove ha hb ?_
    split <;> rfl

theorem Alike.drop (h : Alike gone a b) (ha : a.futures[k]? = some f)
    (hb : b.futures[k]? = some f) : Alike gone (a.drop rt k f) (b.drop rt k f) := by
  unfold Callers.drop
  rw [h.system_eq]
  exact h.advance (ha.trans hb.symm) _ _

theorem Alike.step (h : Alike gone a b) {e : Event ε} (he : e.departs gone = false) :
    Alike gone (a.step rt e) (b.step rt e) := by
  have hwith : ∀ system : System σ, Alike gone { a with system } { b with system } := fun _ =>
    ⟨rfl, h.length_eq, h.future⟩
  unfold Callers.step
  rw [h.system_eq]
  split
  · exact h
  · cases e with
    | call job =>
      refine ⟨rfl, by simp [h.length_eq], fun j => ?_⟩
      simp only [List.getElem?_append, h.length_eq]
      split
      · exact h.future j
      · exact .same _
    | poll k =>
      have hk := h.future k
      generalize ha : a.futures[k]? = fa at hk
      generalize hb : b.futures[k]? = fb at hk
      simp only [ha, hb]
      cases hk with
      | same =>
        cases fa with
        | none => exact h
        | some f => exact h.poll ha hb
      -- Only the second world has a future to poll, and that one waits for a task.
      | left hgone hmove hpolled => exact h.poll_right hgone hmove hpolled ha hb
    | drop k =>
      have hk := h.future k
      generalize ha : a.futures[k]? = fa at hk
      generalize hb : b.futures[k]? = fb at hk
      simp only [ha, hb]
      cases hk with
      | same =>
        cases fa with
        | none => exact h
        | some f => exact h.drop ha hb
      | left hgone => cases hgone.symm.trans he
    | run id =>
      simp only
      split
      · exact hwith _
      · exact h
    | engine e => exact hwith _

/-- A handle that is dropped under a runtime that detaches is all that is lost. -/
theorem drop_of_detaches (hrt : rt.Detaches) (hmove : f.job.isMove = true) (c : Callers σ)
    (k : Nat) : c.drop rt k f = c.advance k .dropped := by
  have howner := Job.owner_eq_task.2 hmove
  unfold drop
  rw [howner]
  cases f.state with
  | pending id =>
    simp only
    rw [System.dropHandle_of_detaches hrt]
  | fresh | ready | dropped => rfl

/-- The departure of the caller of a move that has been polled does nothing. -/
theorem Alike.departed (h : Alike gone a b) (hrt : rt.Detaches) (hgone : gone k = true)
    (hleaves : ∀ f, a.futures[k]? = some f → f.job.isMove = true ∧ f.isFresh = false) :
    Alike gone (a.step rt (.drop k : Event ε)) b := by
  unfold Callers.step
  split
  · exact h
  · cases hf : a.futures[k]? with
    | none => simpa only [hf] using h
    | some f =>
      obtain ⟨hmove, hpolled⟩ := hleaves f hf
      simp only [hf, drop_of_detaches hrt hmove]
      exact h.advance_left hgone hmove hpolled hf

omit [Backend σ ε] in
theorem Alike.turns_eq (h : Alike gone a b) (e : Event ε) : a.turns e = b.turns e := by
  cases e with
  | poll k =>
    have hk := h.future k
    simp only [turns, h.system_eq]
    generalize a.futures[k]? = fa at hk
    generalize b.futures[k]? = fb at hk
    cases hk with
    | same => rfl
    | @left f _ hmove hpolled =>
      have hdropped := Future.turns_of_polled (f := ⟨f.job, .dropped⟩) (ε := ε) hmove rfl
      simp [hdropped, Future.turns_of_polled hmove hpolled]
  | run => simp only [turns, h.system_eq]
  | call | drop | engine => rfl

end Alike

/-! ## Runs of the system -/

section Turns

variable {rt : Runtime} {c : Callers σ}

/-- A step in which no work is given up does to the system what the callers and the runtime have
it do. -/
theorem system_step (hrt : rt.Detaches) {e : Event ε}
    (hmoves : ∀ f ∈ departing (fun _ => true) c e, f.job.isMove = true) :
    (c.step rt e).system = c.system.after (c.turns e) := by
  unfold step
  split
  next ha => exact (System.after_of_aborted ha _).symm
  · cases e with
    | call | engine => rfl
    | poll k =>
      cases hf : c.futures[k]? with
      | none => simp [turns, hf]
      | some f =>
        obtain ⟨job, state⟩ := f
        simp only [turns, hf, Option.toList_some, List.flatMap_singleton]
        cases state with
        | fresh | pending => rfl
        | ready | dropped => cases job.owner <;> rfl
    | drop k =>
      cases hf : c.futures[k]? with
      | none => simp [turns, hf]
      | some f =>
        have hmove : f.job.isMove = true := hmoves f (by simp [departing, hf])
        simp only [hf, drop_of_detaches hrt hmove]
        rfl
    | run id =>
      simp only [turns]
      split <;> rfl

/-- As long as callers only leave moves, a run is a run of the system, in which they do not
occur. -/
theorem system_after (hrt : rt.Detaches) {es : List (Event ε)}
    (hmoves : ∀ f ∈ c.departed rt (fun _ => true) es, f.job.isMove = true) :
    (c.after rt es).system = c.system.after (observe (step rt) turns c es) := by
  induction es using List.reverseRecOn with
  | nil => rfl
  | append_singleton es e ih =>
    rw [departed_append] at hmoves
    rw [after_concat, observe_concat, System.after_append]
    rw [← ih fun f hf => hmoves f (List.mem_append_left _ hf)]
    refine system_step hrt fun f hf => hmoves f (List.mem_append_right _ ?_)
    simpa [departed, observe] using hf

end Turns

/-! ## Two runs at once -/

section Runs

variable {rt : Runtime} {gone : Nat → Bool} {c : Callers σ} {es : List (Event ε)}

/-- Whether those of the given callers who leave in a run leave the future of a move, and have
polled it before. -/
def LeaveMoves (rt : Runtime) (gone : Nat → Bool) (c : Callers σ) (es : List (Event ε)) : Prop :=
  ∀ f ∈ c.departed rt gone es, f.job.isMove = true ∧ f.isFresh = false

instance : Decidable (LeaveMoves rt gone c es) :=
  inferInstanceAs (Decidable (∀ f ∈ c.departed rt gone es, _))

theorem LeaveMoves.of_append {xs ys : List (Event ε)} (h : LeaveMoves rt gone c (xs ++ ys)) :
    LeaveMoves rt gone c xs := by
  intro f hf
  rw [LeaveMoves, departed_append] at h
  exact h f (List.mem_append_left _ hf)

theorem LeaveMoves.last {k : Nat} (h : LeaveMoves rt gone c (es ++ [.drop k]))
    (hgone : gone k = true) {f : Future} (hf : (c.after rt es).futures[k]? = some f) :
    f.job.isMove = true ∧ f.isFresh = false := by
  rw [LeaveMoves, departed_append] at h
  refine h f (List.mem_append_right _ ?_)
  simp [departed, observe, departing, hgone, hf]

/-- The worlds stay alike through both runs. -/
theorem alike_after (hrt : rt.Detaches) (h : LeaveMoves rt gone c es) :
    Alike gone (c.after rt es) (c.after rt (staying gone es)) := by
  induction es using List.reverseRecOn with
  | nil => exact .refl gone c
  | append_singleton es e ih =>
    have hsofar := ih h.of_append
    rw [after_concat]
    cases he : e.departs gone with
    | true =>
      -- The first world takes a step, and the second stays where it is.
      obtain ⟨k, rfl, hgone⟩ := eq_drop_of_departs he
      rw [staying_concat_of_departs he]
      exact hsofar.departed hrt hgone fun f hf => h.last hgone hf
    | false =>
      rw [staying_concat he, after_concat]
      exact hsofar.step he

/-- What the systems show, as they do what an event has them do, they show in both runs. -/
theorem observe_staying {α : Type} (hrt : rt.Detaches) (h : LeaveMoves rt gone c es)
    (look : System σ → List (System.Event ε) → List α) (hnone : ∀ s, look s [] = []) :
    observe (step rt) (fun c e => look c.system (c.turns e)) c (staying gone es) =
      observe (step rt) (fun c e => look c.system (c.turns e)) c es := by
  induction es using List.reverseRecOn with
  | nil => rfl
  | append_singleton es e ih =>
    rw [observe_concat]
    cases he : e.departs gone with
    | true =>
      obtain ⟨k, rfl, -⟩ := eq_drop_of_departs he
      rw [staying_concat_of_departs he, ih h.of_append, turns, hnone, List.append_nil]
    | false =>
      have halike := alike_after hrt h.of_append
      rw [staying_concat he, observe_concat, ih h.of_append]
      refine congrArg _ ?_
      exact congrArg₂ look halike.system_eq.symm (halike.turns_eq e).symm

/-- Every moment of the run without departures is one of the run with them. -/
theorem exists_isPrefix_of_staying {ys : List (Event ε)} (h : ys <+: staying gone es) :
    ∃ xs, xs <+: es ∧ staying gone xs = ys := by
  induction es using List.reverseRecOn with
  | nil => exact ⟨[], List.nil_prefix, (List.prefix_nil.1 h).symm⟩
  | append_singleton es e ih =>
    have hearlier : ys <+: staying gone es → ∃ xs, xs <+: es ++ [e] ∧ staying gone xs = ys := by
      intro h
      obtain ⟨xs, hxs, hys⟩ := ih h
      exact ⟨xs, hxs.trans (List.prefix_append _ _), hys⟩
    cases he : e.departs gone with
    | true =>
      rw [staying_concat_of_departs he] at h
      exact hearlier h
    | false =>
      rw [staying_concat he, List.prefix_concat_iff] at h
      rcases h with rfl | h
      · exact ⟨es ++ [e], List.prefix_rfl, staying_concat he es⟩
      · exact hearlier h

end Runs

/-- How a run in which some callers leave stands to the same run in which they do not. -/
structure Unnoticed (rt : Runtime) (gone : Nat → Bool) (c : Callers σ) (es : List (Event ε)) :
    Prop where
  /-- The engines are called and told the same, by the same tasks and in the same order. -/
  effects : c.effects rt (staying gone es) = c.effects rt es
  /-- The requests are let in in the same order. -/
  admitted : c.admitted rt (staying gone es) = c.admitted rt es
  /-- At every moment the systems are the same: gate, registry and handoff, all tasks with their
  results, and the engines. -/
  systems : ∀ xs, xs <+: es → (c.after rt (staying gone xs)).system = (c.after rt xs).system
  /-- No moment is missing. -/
  moments : ∀ ys, ys <+: staying gone es → ∃ xs, xs <+: es ∧ staying gone xs = ys
  /-- The callers that stay have the same futures, and get the same results from them. -/
  futures : ∀ xs, xs <+: es → ∀ k, gone k = false →
    (c.after rt (staying gone xs)).futures[k]? = (c.after rt xs).futures[k]?

/-- If dropped handles detach their tasks, callers that have polled for a move and leave go
unnoticed by all but themselves. -/
theorem departures_unnoticed (rt : Runtime) (hrt : rt.Detaches) (gone : Nat → Bool)
    (c : Callers σ) (es : List (Event ε)) (hmoves : LeaveMoves rt gone c es) :
    Unnoticed rt gone c es := by
  have halike : ∀ xs, xs <+: es → Alike gone (c.after rt xs) (c.after rt (staying gone xs)) := by
    rintro xs ⟨ys, rfl⟩
    exact alike_after hrt hmoves.of_append
  refine ⟨?_, ?_, fun xs hxs => ((halike xs hxs).system_eq).symm,
    fun ys h => exists_isPrefix_of_staying h, fun xs hxs k hk => ?_⟩
  · exact observe_staying hrt hmoves System.effects fun _ => rfl
  · exact observe_staying hrt hmoves System.admitted fun _ => rfl
  · have hfuture := (halike xs hxs).future k
    generalize (c.after rt xs).futures[k]? = fa at hfuture ⊢
    generalize (c.after rt (staying gone xs)).futures[k]? = fb at hfuture ⊢
    cases hfuture with
    | same => rfl
    | left hgone => cases hk.symm.trans hgone

/-! ## A run with departures -/

/-- A task that is let in and whose model has its engine is served. -/
def served (id : TaskId) : List (Event Rehearsal.Event) :=
  [.run id] ++ List.replicate 3 (.engine .endCall) ++ [.engine .endSearch, .run id]

/-- Five callers ask for a move, and four of them leave: the first as its engine is created, the
second as it waits for the gate, the third when its search has been armed and is not yet submitted,
and the fourth as its engine thinks. -/
def crowdedRun : List (Event Rehearsal.Event) :=
  List.replicate 5 (.call Service.bareKings) ++
    [.poll 0, .poll 1, .poll 2, .poll 3, .poll 4, .run 0, .run 1, .run 2, .run 3, .run 4] ++
    [.drop 0, .drop 1] ++ List.replicate 4 (.engine .endCall) ++ (served 0).drop 1 ++ served 1 ++
    (served 2).insertIdx 3 (.drop 2) ++ (served 3).insertIdx 4 (.drop 3) ++ served 4 ++ [.poll 4]

/-- The callers of the run, in a service that nobody has called before. -/
def crowd : Callers Rehearsal :=
  .new ⟨.new .stock .stock .respond, .new "e2e4" false⟩

/-- Whether a caller of the run leaves. -/
def crowdLeaves (k : Nat) : Bool := k < 4

/-- Nobody notices, and the fifth caller gets its move. -/
theorem unnoticed_of_crowdedRun :
    Runtime.detaching.Detaches ∧ LeaveMoves .detaching crowdLeaves crowd crowdedRun ∧
      (crowd.departed .detaching crowdLeaves crowdedRun).length = 4 ∧
      (∃ m, (crowd.after .detaching crowdedRun).futures[4]? =
        some ⟨Service.bareKings, .ready (.move (.ok m))⟩) ∧
      Unnoticed .detaching crowdLeaves crowd crowdedRun := by
  have hdetaches : Runtime.detaching.Detaches := fun _ => rfl
  have hmoves : LeaveMoves .detaching crowdLeaves crowd crowdedRun := by decide +kernel
  exact ⟨hdetaches, hmoves, rfl, ⟨_, rfl⟩, departures_unnoticed _ hdetaches _ _ _ hmoves⟩

/-- A caller asks, its work gets as far as the gate, and the caller leaves. -/
def leavesEarly (job : Job) : List (Event Rehearsal.Event) :=
  [.call job, .poll 0, .poll 0, .run 0, .drop 0]

-- The task of a move keeps the gate, unless the runtime cancels it; other work is over.
example : (crowd.after .detaching (leavesEarly Service.bareKings)).system.service.gate.holder? =
    some (.task 0) := rfl

example : (crowd.after .cancelling (leavesEarly Service.bareKings)).system.service.gate = .free :=
  rfl

example : (crowd.after .detaching (leavesEarly .preload)).system.service.gate = .free := rfl

end Callers

end Sparring
