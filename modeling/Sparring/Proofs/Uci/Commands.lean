import Sparring.Proofs.Engine.Calls
import Sparring.Proofs.Uci.Submission

/-!
# The commands that a process gets

The calls of the service come to a process one after another: the one that launches it, and then
those that are made while it is the newest of its model (`callsOf`). Each call has some commands to
write. What has been written to a process are the commands of its calls, from the start and in
order: all of them while it takes its input, but for those that the call under way has still to
write. `sent_after` says so of every run.
-/

namespace Sparring.Uci

/-! ## What a call has to write -/

/-- The commands of a call. A position with a line break is refused. -/
def commands : EngineCall → List String
  | .create _ => [helloCommand]
  | .setOption _ name value => [optionCommand name value]
  | .newGame _ => [newGameCommand, readyCommand]
  | .setPosition _ fen => if fen.toList.any isLineBreak then [] else [positionCommand fen]
  | .go _ _ limits => [goCommand limits]

/-- The lines that an action writes. -/
def Action.lines : Action → List String
  | .write line => [line]
  | .record _ | .withdraw | .await _ => []

/-- The lines that a row of actions writes. -/
def writes (as : List Action) : List String := as.flatMap Action.lines

theorem writes_of_actions {call : EngineCall} {as : List Action}
    (h : Fleet.actions call = .ok as) : writes as = commands call := by
  cases call with
  | setPosition model fen =>
    simp only [Fleet.actions] at h
    split at h <;> cases h
    next hbreak => exact (if_neg hbreak).symm
  | create | setOption | newGame | go =>
    cases h
    rfl

theorem commands_of_refused {call : EngineCall} {causes : Causes}
    (h : Fleet.actions call = .error causes) : commands call = [] := by
  cases call with
  | setPosition model fen =>
    simp only [Fleet.actions] at h
    split at h <;> cases h
    next hbreak => exact if_pos hbreak
  | create | setOption | newGame | go => cases h

/-- Nothing is written after an acknowledgement has been awaited. -/
theorem OnCourse.writes_of_await {call : EngineCall} {process : Nat} {a : Ack}
    {rest : List Action} {failure : Option Causes}
    (h : OnCourse call (.acting process (.await a :: rest) failure)) : writes rest = [] := by
  rcases h.of_acting with ⟨-, done, hactions⟩ | ⟨-, hrest⟩
  · -- An acknowledgement is the last of the actions, if there is one at all.
    have hlast : rest = [] := by
      cases call with
      | setPosition model fen =>
        simp only [Fleet.actions] at hactions
        split at hactions
        · cases hactions
        · rcases done with _ | ⟨_, _ | _⟩ <;> simp at hactions
      | setOption | go => rcases done with _ | ⟨_, _ | _⟩ <;> simp [Fleet.actions] at hactions
      | create =>
        rcases done with _ | ⟨_, _ | _⟩ <;> simp [Fleet.actions] at hactions
        exact hactions.2.2
      | newGame =>
        rcases done with _ | ⟨_, _ | ⟨_, _ | _⟩⟩ <;> simp [Fleet.actions] at hactions
        exact hactions.2.2.2
    rw [hlast]
    rfl
  · cases call <;> cases hrest

/-- The lines that a call has still to write to a process. -/
def Progress.unwritten (k : Nat) : Progress → List String
  | .launching => []
  | .acting process rest _ => if process = k then writes rest else []

/-- The lines that the calls under way have still to write to a process. -/
def Fleet.unwritten (f : Fleet) (k : Nat) : List String :=
  f.calls.flatMap fun c => c.progress.unwritten k

/-! ## What has been written -/

/-- What the calls that have come to a process have written to it. -/
structure Sent (i : Instance) (unwritten : List String) (calls : List (TaskId × EngineCall))
    (sent : List String) : Prop where
  written : i.written = sent.map (· ++ "\n")
  isPrefix : sent <+: calls.flatMap (commands ·.2)
  complete : i.inputOpen = true → sent ++ unwritten = calls.flatMap (commands ·.2)
  /-- All of them are calls for its model. -/
  model : ∀ x ∈ calls, x.2.model = i.model

namespace Sent

variable {i j : Instance} {unwritten rest sent : List String} {calls : List (TaskId × EngineCall)}

/-- What has been written stays. If the process still takes its input, the same must be left to
write. -/
theorem keep (h : Sent i unwritten calls sent) (hw : j.written = i.written)
    (hm : j.model = i.model) (hopen : j.inputOpen = true → i.inputOpen = true ∧ rest = unwritten) :
    Sent j rest calls sent := by
  refine ⟨hw.trans h.written, h.isPrefix, fun hj => ?_, fun x hx => (h.model x hx).trans hm.symm⟩
  obtain ⟨hi, rfl⟩ := hopen hj
  exact h.complete hi

/-- The next of the commands is written. -/
theorem write {line : String} (h : Sent i (line :: rest) calls sent)
    (hopen : i.inputOpen = true) :
    Sent { i with written := i.written ++ [line ++ "\n"] } rest calls (sent ++ [line]) := by
  have hall : (sent ++ [line]) ++ rest = calls.flatMap (commands ·.2) := by
    rw [← h.complete hopen, List.append_assoc]
    rfl
  refine ⟨?_, ⟨rest, hall⟩, fun _ => hall, h.model⟩
  rw [h.written, List.map_append]
  rfl

theorem arrive (h : Sent i [] calls sent) {x : TaskId × EngineCall} (hx : x.2.model = i.model) :
    Sent i (commands x.2) (calls ++ [x]) sent := by
  have hmore : (calls ++ [x]).flatMap (commands ·.2) =
      calls.flatMap (commands ·.2) ++ commands x.2 := by
    simp
  refine ⟨h.written, ?_, fun hopen => ?_, fun y hy => ?_⟩
  · rw [hmore]
    exact h.isPrefix.trans (List.prefix_append _ _)
  · rw [hmore, ← h.complete hopen, List.append_nil]
  · rcases List.mem_append.1 hy with hy | hy
    · exact h.model y hy
    · rwa [List.mem_singleton.1 hy]

end Sent

theorem Instance.written_read (i : Instance) :
    i.read.1.written = i.written ∧ i.read.1.model = i.model ∧
      (i.read.1.inputOpen = true → i.inputOpen = true) := by
  have h := i.reading_read
  generalize i.read = out at h
  cases h <;> exact ⟨rfl, rfl, id⟩

namespace Fleet

/-- Whether these are the calls that have come to a process, and what has been written to it goes
back to them. -/
structure Accounts (f : Fleet) (k : Nat) (calls : List (TaskId × EngineCall)) : Prop where
  absent : f.instances[k]? = none → calls = []
  present : ∀ i, f.instances[k]? = some i → ∃ sent, Sent i (f.unwritten k) calls sent

variable {f f' : Fleet} {k : Nat} {c : OpenCall} {calls : List (TaskId × EngineCall)}

theorem unwritten_only (hc : f.calls = [c]) : f.unwritten k = c.progress.unwritten k := by
  simp [unwritten, hc]

theorem unwritten_advance (hc : f.calls = [c]) (progress : Progress) :
    (f.advance c.task progress).unwritten k = progress.unwritten k := by
  simp [unwritten, advance, hc]

theorem unwritten_idle (hc : f.calls = []) : f.unwritten k = [] := by
  simp [unwritten, hc]

/-- A process is changed, but nothing is written to it. -/
theorem Accounts.modify (h : f.Accounts k calls) {process : Nat} {g : Instance → Instance}
    (hg : ∀ i, f.instances[process]? = some i → (g i).written = i.written ∧
      (g i).model = i.model ∧ ((g i).inputOpen = true → i.inputOpen = true)) :
    (f.modify process g).Accounts k calls := by
  refine ⟨fun hnone => h.absent ?_, fun i hi => ?_⟩
  · rw [instances_modify] at hnone
    split at hnone
    · exact Option.map_eq_none_iff.1 hnone
    · exact hnone
  · rw [instances_modify] at hi
    split at hi
    next hk =>
      subst hk
      obtain ⟨old, hold, rfl⟩ := Option.map_eq_some_iff.1 hi
      obtain ⟨sent, hsent⟩ := h.present old hold
      obtain ⟨hw, hm, hopen⟩ := hg old hold
      exact ⟨sent, hsent.keep hw hm fun hj => ⟨hopen hj, rfl⟩⟩
    next => exact h.present i hi

/-- The calls under way change, but not what they have still to write. -/
theorem Accounts.of_calls (h : f.Accounts k calls) (hinstances : f'.instances[k]? = f.instances[k]?)
    (hsame : ∀ i, f.instances[k]? = some i → i.inputOpen = true →
      f'.unwritten k = f.unwritten k) : f'.Accounts k calls := by
  refine ⟨fun hnone => h.absent (hinstances ▸ hnone), fun i hi => ?_⟩
  rw [hinstances] at hi
  obtain ⟨sent, hsent⟩ := h.present i hi
  exact ⟨sent, hsent.keep rfl rfl fun hopen => ⟨hopen, hsame i hi hopen⟩⟩

theorem Accounts.write (h : f.Accounts k calls) (hc : f.calls = [c]) {process : Nat}
    {line : String} {rest : List Action} {failure : Option Causes}
    (hp : c.progress = .acting process (.write line :: rest) failure) {j : Instance}
    (hj : f.instances[process]? = some j) (hopen : j.inputOpen = true) :
    ((f.modify process fun i => { i with written := i.written ++ [line ++ "\n"] }).advance c.task
      (.acting process rest failure)).Accounts k calls := by
  have hbefore : f.unwritten k = if process = k then writes (.write line :: rest) else [] := by
    rw [unwritten_only hc, hp, Progress.unwritten]
  have hafter := unwritten_advance (k := k)
    (f := f.modify process fun i => { i with written := i.written ++ [line ++ "\n"] }) hc
    (.acting process rest failure)
  have hinstance := f.instances_modify process k
    fun i => { i with written := i.written ++ [line ++ "\n"] }
  by_cases hk : process = k
  · subst hk
    rw [if_pos rfl, hj] at hinstance
    refine ⟨fun hnone => ?_, fun i hi => ?_⟩
    · cases hnone.symm.trans hinstance
    · cases hi.symm.trans hinstance
      obtain ⟨sent, hsent⟩ := h.present j hj
      rw [hbefore, if_pos rfl] at hsent
      rw [hafter, Progress.unwritten, if_pos rfl]
      exact ⟨_, hsent.write hopen⟩
  · refine h.of_calls (hinstance.trans (if_neg hk)) fun i _ _ => ?_
    rw [hafter, hbefore, Progress.unwritten, if_neg hk, if_neg hk]

theorem Accounts.act (h : f.Accounts k calls) (hc : f.calls = [c]) {process : Nat} {a : Action}
    {rest : List Action} {failure : Option Causes}
    (hp : c.progress = .acting process (a :: rest) failure) (ho : OnCourse c.call c.progress)
    {j : Instance} (hj : f.instances[process]? = some j) :
    (f.act c process j a rest failure).Accounts k calls := by
  have hbefore : f.unwritten k = if process = k then writes (a :: rest) else [] := by
    rw [unwritten_only hc, hp, Progress.unwritten]
  -- An action that writes nothing changes nothing here.
  have hquiet : ∀ {g : Instance → Instance} {as : List Action} {failure' : Option Causes},
      writes as = writes (a :: rest) → (∀ i, (g i).written = i.written ∧ (g i).model = i.model ∧
        ((g i).inputOpen = true → i.inputOpen = true)) →
      ((f.modify process g).advance c.task (.acting process as failure')).Accounts k calls := by
    intro g as failure' hwrites hg
    have hmodify : (f.modify process g).Accounts k calls := h.modify fun i _ => hg i
    refine hmodify.of_calls rfl fun i _ _ => ?_
    have hafter := unwritten_advance (f := f.modify process g) (k := k) hc
      (.acting process as failure')
    rw [hafter, Progress.unwritten, hwrites]
    exact hbefore.symm
  cases a with
  | write line =>
    simp only [Fleet.act]
    split
    next hopen => exact h.write hc hp hj hopen
    next hclosed =>
      refine h.of_calls rfl fun i hi hopen => ?_
      rw [unwritten_advance hc, hbefore, Progress.unwritten]
      by_cases hk : process = k
      · subst hk
        cases hi.symm.trans hj
        exact absurd hopen hclosed
      · rw [if_neg hk, if_neg hk]
  | record n | withdraw => exact hquiet rfl fun i => ⟨rfl, rfl, id⟩
  | await b =>
    simp only [Fleet.act]
    split
    next got acks hacks =>
      refine hquiet ?_ fun i => ⟨rfl, rfl, id⟩
      split <;> rfl
    next hacks =>
      split
      · refine h.of_calls rfl fun i _ _ => ?_
        rw [hp] at ho
        have hnone : writes (.await b :: rest) = [] := ho.writes_of_await
        rw [unwritten_advance hc, hbefore, Progress.unwritten, hnone]
        rfl
      · exact h

theorem Accounts.finish (h : f.Accounts k calls) (hc : f.calls = [c]) (process : Nat)
    (failure : Option Causes)
    (hnone : ∀ i, f.instances[k]? = some i → i.inputOpen = true → f.unwritten k = []) :
    (f.finish c process failure).1.Accounts k calls := by
  have hclose : ∀ {f' : Fleet}, f'.Accounts k calls → f'.calls = [c] →
      (∀ i, f'.instances[k]? = some i → i.inputOpen = true → f'.unwritten k = []) →
      (f'.close c.task).Accounts k calls := by
    intro f' h' hc' hnone'
    refine h'.of_calls rfl fun i hi hopen => ?_
    rw [hnone' i hi hopen, unwritten_idle (close_only hc')]
  cases failure with
  | none => exact hclose h hc hnone
  | some causes =>
    simp only [Fleet.finish]
    split
    · refine hclose (h.modify fun i _ => ⟨rfl, rfl, fun hk => by cases hk⟩) hc ?_
      intro i hi hopen
      rw [instances_modify] at hi
      split at hi
      · obtain ⟨old, -, rfl⟩ := Option.map_eq_some_iff.1 hi
        cases hopen
      · exact hnone i hi hopen
    · exact hclose h hc hnone

theorem Accounts.proceed (h : f.Accounts k calls) (hc : f.calls = [c])
    (ho : OnCourse c.call c.progress) : (f.proceed c).1.Accounts k calls := by
  have hunwritten : f.unwritten k = c.progress.unwritten k := unwritten_only hc
  unfold Fleet.proceed
  split
  · exact h
  next process failure hp =>
    refine h.finish hc process failure fun i _ _ => ?_
    rw [hunwritten, hp, Progress.unwritten]
    split <;> rfl
  next process a rest failure hp =>
    split
    next habsent =>
      refine h.finish hc process _ fun i hi _ => ?_
      rw [hunwritten, hp, Progress.unwritten, if_neg]
      rintro rfl
      cases hi.symm.trans habsent
    next j hj => exact h.act hc hp ho hj

/-! ## The calls of a process -/

/-- The call that launches a process in a step. -/
def launching (f : Fleet) (k : Nat) : Event → List (TaskId × EngineCall)
  | .launched task none =>
    match f.call? task with
    | some ⟨_, call, .launching⟩ => if f.instances.length = k then [(task, call)] else []
    | _ => []
  | _ => []

/-- The call that a task makes to a process that is there. -/
def opened (f : Fleet) (k : Nat) (task : TaskId) (call : EngineCall) :
    List (TaskId × EngineCall) :=
  match f.opening call with
  | .launching => []
  | .acting process _ _ =>
    if process = k ∧ k < f.instances.length then [(task, call)] else []

/-- A call that is launched has all its commands to write to the new process. -/
theorem launched_eq (hp : c.progress = .launching) (f : Fleet) :
    ∃ rest failure, writes rest = commands c.call ∧ (f.launched c none).1 =
      ({ f with instances := f.instances ++ [Instance.new c.call.model] } : Fleet).advance c.task
        (.acting f.instances.length rest failure) := by
  unfold Fleet.launched
  rw [hp]
  simp only
  split
  next as has => exact ⟨as, none, writes_of_actions has, rfl⟩
  next causes hcauses => exact ⟨[], some causes, (commands_of_refused hcauses).symm, rfl⟩

theorem launching_of_only (hc : f.calls = [c]) (hp : c.progress = .launching) :
    f.launching k (.launched c.task none) =
      if f.instances.length = k then [(c.task, c.call)] else [] := by
  have hcall : f.call? c.task = some c := call?_of_calls hc
  obtain ⟨task, call, progress⟩ := c
  cases hp
  simp [launching, hcall]

theorem launching_of_acting (hc : f.calls = [c]) {process : Nat} {rest : List Action}
    {failure : Option Causes} (hp : c.progress = .acting process rest failure)
    (outcome : Option Causes) : f.launching k (.launched c.task outcome) = [] := by
  have hcall : f.call? c.task = some c := call?_of_calls hc
  obtain ⟨task, call, progress⟩ := c
  cases hp
  cases outcome <;> simp [launching, hcall]

theorem getElem?_concat_of_ne (i : Instance) (hk : f.instances.length ≠ k) :
    (f.instances ++ [i])[k]? = f.instances[k]? := by
  rcases Nat.lt_or_gt_of_ne hk with hlt | hlt
  · rw [List.getElem?_eq_none (Nat.le_of_lt hlt),
      List.getElem?_eq_none (by simpa using Nat.succ_le_of_lt hlt)]
  · exact List.getElem?_append_left hlt

theorem Accounts.launch (h : f.Accounts k calls) (hc : f.calls = [c])
    (hp : c.progress = .launching) : (f.launched c none).1.Accounts k
      (calls ++ if f.instances.length = k then [(c.task, c.call)] else []) := by
  obtain ⟨rest, failure, hrest, hlaunched⟩ := launched_eq hp f
  have hafter := unwritten_advance (k := k)
    (f := { f with instances := f.instances ++ [Instance.new c.call.model] }) hc
    (.acting f.instances.length rest failure)
  rw [hlaunched]
  by_cases hk : f.instances.length = k
  · subst hk
    rw [if_pos rfl, h.absent (List.getElem?_eq_none (Nat.le_refl _)), List.nil_append]
    rw [Progress.unwritten, if_pos rfl, hrest] at hafter
    have hnew : (f.instances ++ [Instance.new c.call.model])[f.instances.length]? =
        some (Instance.new c.call.model) := List.getElem?_concat_length
    refine ⟨fun hnone => (by cases hnone.symm.trans hnew), fun i hi => ⟨[], ?_⟩⟩
    cases hi.symm.trans hnew
    rw [hafter]
    refine ⟨rfl, List.nil_prefix, fun _ => by simp, fun x hx => ?_⟩
    rw [List.mem_singleton.1 hx]
    rfl
  · rw [if_neg hk, List.append_nil]
    rw [Progress.unwritten, if_neg hk] at hafter
    refine h.of_calls (getElem?_concat_of_ne _ hk) fun i _ _ => ?_
    rw [hafter, unwritten_only hc, hp, Progress.unwritten]

/-- The call under way is told how the launch has gone. -/
theorem Accounts.launched (h : f.Accounts k calls) (hc : f.calls = [c]) (failure : Option Causes) :
    (f.launched c failure).1.Accounts k
      (calls ++ f.launching k (.launched c.task failure)) := by
  cases hp : c.progress with
  | acting process rest failure' =>
    rw [launching_of_acting hc hp, List.append_nil]
    unfold Fleet.launched
    rw [hp]
    exact h
  | launching =>
    cases failure with
    | some causes =>
      rw [show f.launching k (.launched c.task (some causes)) = [] from rfl, List.append_nil]
      unfold Fleet.launched
      rw [hp]
      refine h.of_calls rfl fun i _ _ => ?_
      rw [unwritten_only hc, hp, Progress.unwritten, unwritten_idle (close_only hc)]
    | none =>
      rw [launching_of_only hc hp]
      exact h.launch hc hp

theorem Accounts.step (h : f.Accounts k calls)
    (hc : f.calls = [] ∨ ∃ c, f.calls = [c] ∧ OnCourse c.call c.progress) (e : Event) :
    (f.step e).1.Accounts k (calls ++ f.launching k e) := by
  have hsame : ∀ {task}, f.call? task = none → ∀ failure,
      f.launching k (.launched task failure) = [] := by
    intro task hcall failure
    cases failure <;> simp [launching, hcall]
  have hnone : ∀ {f' : Fleet}, f'.Accounts k calls → f'.Accounts k (calls ++ []) := by
    intro f' h'
    rwa [List.append_nil]
  -- Only a launch brings a call to the process, and only a turn of the call writes to it.
  cases e with
  | launched task failure =>
    simp only [Fleet.step]
    split
    next hcall =>
      rw [hsame hcall]
      exact hnone h
    next d hd =>
      rcases hc with hc | ⟨c, hc, -⟩
      · simp [call?, hc] at hd
      · cases eq_of_call? hc hd
        rw [← task_of_call? hd]
        exact h.launched hc failure
  | proceed task =>
    refine hnone ?_
    simp only [Fleet.step]
    split
    · exact h
    next d hd =>
      rcases hc with hc | ⟨c, hc, ho⟩
      · simp [call?, hc] at hd
      · cases eq_of_call? hc hd
        exact h.proceed hc ho
  | read process =>
    refine hnone ?_
    simp only [Fleet.step]
    split
    · exact h
    next i hi =>
      refine h.modify fun j hj => ?_
      cases hi.symm.trans hj
      exact Instance.written_read i
  | print process bytes =>
    refine hnone (h.modify fun i _ => ?_)
    split <;> exact ⟨rfl, rfl, id⟩
  | closeOutput process =>
    exact hnone (h.modify fun i _ => ⟨rfl, rfl, id⟩)
  | closeInput process =>
    exact hnone (h.modify fun i _ => ⟨rfl, rfl, fun hopen => by cases hopen⟩)

/-- A call that goes to a process has all its commands to write. -/
theorem opening_cases (f : Fleet) (call : EngineCall) :
    f.opening call = .launching ∨
      ∃ rest failure, writes rest = commands call ∧
        f.opening call = .acting ((f.newest? call.model).getD f.instances.length) rest failure := by
  cases call with
  | create model => exact Or.inl rfl
  | setOption | newGame | setPosition | go =>
    refine Or.inr ?_
    simp only [opening]
    split
    next as has => exact ⟨as, none, writes_of_actions has, rfl⟩
    next causes hcauses => exact ⟨[], some causes, (commands_of_refused hcauses).symm, rfl⟩

/-- A task makes a call while none is under way. -/
theorem Accounts.begin (h : f.Accounts k calls) (hc : f.calls = []) (task : TaskId)
    (call : EngineCall) : (f.begin task call).Accounts k (calls ++ f.opened k task call) := by
  have hafter : (f.begin task call).unwritten k = (f.opening call).unwritten k := by
    simp [unwritten, Fleet.begin, hc]
  have hquiet : (f.opening call).unwritten k = [] → (f.begin task call).Accounts k calls := by
    intro hnone
    refine h.of_calls rfl fun i _ _ => ?_
    rw [hafter, hnone, unwritten_idle hc]
  -- A call that launches its process writes nothing yet; any other goes to the newest one.
  rcases f.opening_cases call with hlaunching | ⟨rest, failure, hrest, hacting⟩
  · rw [opened, hlaunching, List.append_nil]
    exact hquiet (by rw [hlaunching, Progress.unwritten])
  · rw [hacting] at hafter hquiet
    rw [opened, hacting]
    simp only [Progress.unwritten] at hafter hquiet ⊢
    split
    next hk =>
      obtain ⟨hprocess, hlt⟩ := hk
      obtain ⟨i, hi, hmodel⟩ : ∃ i, f.instances[k]? = some i ∧ i.model = call.model := by
        cases hnewest : f.newest? call.model with
        | none =>
          rw [hnewest, Option.getD_none] at hprocess
          exact absurd hprocess (Nat.ne_of_gt hlt)
        | some process =>
          rw [hnewest, Option.getD_some] at hprocess
          subst hprocess
          exact newest?_eq_some hnewest
      refine ⟨fun hnone => (by cases hnone.symm.trans hi), fun j hj => ?_⟩
      cases hj.symm.trans hi
      obtain ⟨sent, hsent⟩ := h.present i hi
      rw [unwritten_idle hc] at hsent
      rw [hafter, if_pos hprocess, hrest]
      exact ⟨sent, hsent.arrive (x := (task, call)) hmodel.symm⟩
    next hk =>
      rw [List.append_nil]
      by_cases hprocess : (f.newest? call.model).getD f.instances.length = k
      · have hle : f.instances.length ≤ k := Nat.le_of_not_lt fun hlt => hk ⟨hprocess, hlt⟩
        have hnone : f.instances[k]? = none := List.getElem?_eq_none hle
        exact ⟨fun _ => h.absent hnone, fun i hi => by cases hi.symm.trans hnone⟩
      · exact hquiet (if_neg hprocess)

end Fleet

/-- The call that launches a process in a step. -/
def launchingOf (k : Nat) (s : System Fleet) : Occurrence → List (TaskId × EngineCall)
  | .engine e => if s.service.aborted then [] else s.engines.launching k e
  | .start _ | .run _ | .hangUp _ => []

/-- The call that the service makes to a process. -/
def openedBy (f : Fleet) (k : Nat) : Service.Effect → List (TaskId × EngineCall)
  | .call id c => f.opened k id c
  | .delivered _ => []

/-- The calls that come to a process in a step. -/
def coming (k : Nat) (s : System Fleet) (e : Occurrence) : List (TaskId × EngineCall) :=
  launchingOf k s e ++ (s.effect e).flatMap (openedBy (s.engineStep e).1 k)

/-- The calls that come to a process in a run, each with its task. -/
def callsOf (s : System Fleet) (k : Nat) (es : List Occurrence) : List (TaskId × EngineCall) :=
  observe System.step (coming k) s es

theorem going_of_call {s : Service} {e : Service.Event} {id : TaskId} {c : EngineCall}
    (h : (s.step e).2 = some (.call id c)) : (s.step e).1.aborted = false := by
  have hmove : ∀ {j : TaskId} {turn : Service.Turn}, turn.service.aborted = false →
      (Service.move j turn).2 = some (.call id c) → (Service.move j turn).1.aborted = false := by
    intro j turn hgo hcall
    have hf : ¬turn.Fatal := by
      intro hf
      rw [Service.move_of_fatal hf] at hcall
      cases hcall
    rw [Service.aborted_move, decide_eq_false hf, hgo]
    rfl
  cases ha : s.aborted with
  | true =>
    rw [Service.step_of_aborted ha] at h
    cases h
  | false =>
    have hc := Service.change_step ha e
    generalize s.step e = out at hc h
    cases hc with
    | idle | arrived | queued => cases h
    | completed c' =>
      split at h <;> cases h
    | entered => exact hmove ha h
    | passed he ht hpass => exact hmove (hpass.aborted_eq.trans ha) h

section Run

variable {s : System Fleet} {k : Nat} {e : Occurrence} {calls : List (TaskId × EngineCall)}

theorem Served.only (hs : Served s) :
    s.engines.calls = [] ∨ ∃ c, s.engines.calls = [c] ∧ OnCourse c.call c.progress := by
  cases hs with
  | idle hc => exact Or.inl hc
  | busy hc _ _ ho => exact Or.inr ⟨_, hc, ho⟩

theorem calls_of_effect (hs : Served (s.step e)) {e' : Service.Event} {id : TaskId}
    {c : EngineCall} (hseen : s.relay e = some e')
    (hcall : (s.service.step e').2 = some (.call id c)) : (s.engineStep e).1.calls = [] := by
  have hstep : (s.step e).engines.calls = (s.engineStep e).1.calls ++
      [⟨id, c, (s.engineStep e).1.opening c⟩] := by
    rw [System.step_eq, hseen]
    simp only [hcall]
    rfl
  rcases hs.only with hnone | ⟨d, hone, -⟩
  · simp [hstep] at hnone
  · rw [hstep] at hone
    cases hcalls : (s.engineStep e).1.calls with
    | nil => rfl
    | cons b bs =>
      rw [hcalls] at hone
      simp at hone

theorem accounts_engineStep (h : s.engines.Accounts k calls) (hs : Served s)
    (ha : s.service.aborted = false) (e : Occurrence) :
    (s.engineStep e).1.Accounts k (calls ++ launchingOf k s e) := by
  cases e with
  | start | run | hangUp =>
    rw [launchingOf, List.append_nil]
    exact h
  | engine e =>
    rw [engineStep_of_going ha, launchingOf, if_neg (by simp [ha])]
    exact h.step hs.only e

/-- The calls that come to a process in a step are added to those there were. -/
theorem accounts_step (h : s.engines.Accounts k calls) (hs : Served s)
    (hs' : (s.step e).service.aborted = false → Served (s.step e))
    (ha : s.service.aborted = false) :
    (s.step e).engines.Accounts k (calls ++ coming k s e) := by
  have hstep := accounts_engineStep h hs ha e
  -- Unless a task makes a call, nothing comes to the process.
  have hquiet : (s.effect e).flatMap (openedBy (s.engineStep e).1 k) = [] →
      (s.step e).engines = (s.engineStep e).1 →
      (s.step e).engines.Accounts k (calls ++ coming k s e) := by
    intro hnone hengines
    rw [hengines, coming, hnone, List.append_nil]
    exact hstep
  cases hr : s.relay e with
  | none =>
    refine hquiet (by simp [System.effect, hr]) ?_
    rw [System.step_eq, hr]
  | some e' =>
    have heffect : s.effect e = (s.service.step e').2.toList := by simp [System.effect, hr]
    have hengines : (s.step e).engines =
        System.takeUp (s.engineStep e).1 (s.service.step e').2 := by
      rw [System.step_eq, hr]
    rcases hout : (s.service.step e').2 with _ | ⟨id, c⟩ | r
    · rw [hout] at heffect hengines
      exact hquiet (by rw [heffect]; rfl) hengines
    · have hgo : (s.step e).service.aborted = false := by
        rw [System.service_of_seen hr]
        exact going_of_call hout
      have hbegin := hstep.begin (calls_of_effect (hs' hgo) hr hout) id c
      rw [hout] at heffect hengines
      rw [List.append_assoc] at hbegin
      rw [hengines, coming, heffect, Option.toList_some, List.flatMap_singleton]
      exact hbegin
    · rw [hout] at heffect hengines
      exact hquiet (by rw [heffect]; rfl) hengines

end Run

/-- Nothing comes to a process when the service has been aborted. -/
theorem coming_of_aborted {s : System Fleet} (ha : s.service.aborted = true) (k : Nat)
    (e : Occurrence) : coming k s e = [] := by
  have hlaunching : launchingOf k s e = [] := by
    cases e <;> simp [launchingOf, ha]
  have heffect : s.effect e = [] := by
    simp [System.effect, Service.step_of_aborted ha]
  rw [coming, hlaunching, heffect]
  rfl

section Runs

variable (settings : EngineSettings) (table : Table) (policy : FailurePolicy)

theorem callsOf_concat (s : System Fleet) (k : Nat) (es : List Occurrence) (e : Occurrence) :
    callsOf s k (es ++ [e]) = callsOf s k es ++ coming k (s.after es) e := observe_concat ..

/-- In every run, what has been written to a process goes back to the calls that have come to it. -/
theorem accounts_after (es : List Occurrence) (k : Nat) :
    ((start settings table policy).after es).engines.Accounts k
      (callsOf (start settings table policy) k es) := by
  induction es using List.reverseRecOn with
  | nil => exact ⟨fun _ => rfl, fun i hi => by cases hi⟩
  | append_singleton es e ih =>
    rw [System.after_concat, callsOf_concat]
    cases ha : ((start settings table policy).after es).service.aborted with
    | false =>
      refine accounts_step ih (served_after ha) (fun hgo => ?_) ha
      rw [← System.after_concat] at hgo ⊢
      exact served_after hgo
    | true =>
      rw [(step_of_aborted ha e).1, coming_of_aborted ha, List.append_nil]
      exact ih

/-- What has been written to a process are commands of the calls that have come to it. -/
theorem sent_after {es : List Occurrence} {k : Nat} {i : Instance}
    (hi : ((start settings table policy).after es).engines.instances[k]? = some i) :
    ∃ sent, Sent i (((start settings table policy).after es).engines.unwritten k)
      (callsOf (start settings table policy) k es) sent :=
  (accounts_after settings table policy es k).present i hi

end Runs

/-! ## Where the calls come from -/

theorem mem_calls_of_step {f : Fleet} {e : Fleet.Event} {c : OpenCall}
    (hc : f.calls = [] ∨ ∃ c, f.calls = [c] ∧ OnCourse c.call c.progress)
    (h : c ∈ (f.step e).1.calls) : ∃ d ∈ f.calls, d.task = c.task ∧ d.call = c.call := by
  rcases hc with hnone | ⟨d, hone, ho⟩
  · rw [(Fleet.step_none hnone e).2] at h
    cases h
  · rcases Fleet.step_only hone ho e with ⟨hreturns, -⟩ | ⟨-, progress, hgoes, -⟩
    · rw [hreturns] at h
      cases h
    · rw [hgoes] at h
      cases List.mem_singleton.1 h
      exact ⟨d, by simp [hone], rfl, rfl⟩

theorem mem_calls_of_launchingOf {s : System Fleet} {k : Nat} {e : Occurrence} {id : TaskId}
    {c : EngineCall} (h : (id, c) ∈ launchingOf k s e) :
    ∃ d ∈ s.engines.calls, d.task = id ∧ d.call = c := by
  cases e with
  | start | run | hangUp => cases h
  | engine e =>
    simp only [launchingOf] at h
    split at h
    · cases h
    · unfold Fleet.launching at h
      split at h
      next task =>
        split at h
        next call hcall =>
          split at h
          · cases List.mem_singleton.1 h
            exact ⟨_, List.mem_of_find?_eq_some hcall, Fleet.task_of_call? hcall, rfl⟩
          · cases h
        · cases h
      · cases h

/-- A call that comes to a process is the one that the task makes. -/
theorem eq_of_mem_openedBy {f : Fleet} {k : Nat} {effect : Service.Effect} {id : TaskId}
    {c : EngineCall} (h : (id, c) ∈ openedBy f k effect) : effect = .call id c := by
  cases effect with
  | delivered r => cases h
  | call j d =>
    simp only [openedBy, Fleet.opened] at h
    split at h
    · cases h
    · split at h
      · cases List.mem_singleton.1 h
        rfl
      · cases h

section Origins

variable {settings : EngineSettings} {table : Table} {policy : FailurePolicy}
  {es : List Occurrence} {k : Nat} {id : TaskId} {c : EngineCall}

theorem mem_effects_of_calls {c : OpenCall}
    (h : c ∈ ((start settings table policy).after es).engines.calls) :
    .call c.task c.call ∈ (start settings table policy).effects es := by
  -- A call is under way since the step in which its task has made it.
  induction es using List.reverseRecOn generalizing c with
  | nil => cases h
  | append_singleton es e ih =>
    rw [System.effects_concat, List.mem_append]
    rw [System.after_concat] at h
    cases ha : ((start settings table policy).after es).service.aborted with
    | true =>
      rw [(step_of_aborted ha e).1] at h
      exact Or.inl (ih h)
    | false =>
      have hgoes : c ∈ (((start settings table policy).after es).engineStep e).1.calls →
          .call c.task c.call ∈ (start settings table policy).effects es := by
        intro hc
        cases e with
        | start | run | hangUp => exact ih hc
        | engine e =>
          rw [engineStep_of_going ha] at hc
          obtain ⟨d, hd, htask, hcall⟩ := mem_calls_of_step (served_after ha).only hc
          rw [← htask, ← hcall]
          exact ih hd
      rw [System.step_eq] at h
      cases hr : ((start settings table policy).after es).relay e with
      | none =>
        rw [hr] at h
        exact Or.inl (hgoes h)
      | some e' =>
        rw [hr] at h
        rcases mem_calls_takeUp h with hold | ⟨id, call, heffect, rfl⟩
        · exact Or.inl (hgoes hold)
        · exact Or.inr (by simp [System.effect, hr, heffect])

/-- Every call that comes to a process has been made by its task. -/
theorem mem_effects_of_callsOf (h : (id, c) ∈ callsOf (start settings table policy) k es) :
    .call id c ∈ (start settings table policy).effects es := by
  obtain ⟨before, e, later, rfl, hcoming⟩ := mem_observe.1 h
  have hcoming : (id, c) ∈ coming k ((start settings table policy).after before) e := hcoming
  rw [System.effects_append, List.mem_append]
  rw [coming, List.mem_append] at hcoming
  rcases hcoming with hlaunching | hopened
  · -- The call that launches a process was under way before.
    obtain ⟨d, hd, rfl, rfl⟩ := mem_calls_of_launchingOf hlaunching
    exact Or.inl (mem_effects_of_calls hd)
  · obtain ⟨effect, heffect, hopened⟩ := List.mem_flatMap.1 hopened
    cases eq_of_mem_openedBy hopened
    exact Or.inr (List.mem_append_left _ heffect)

theorem stage?_start (settings : EngineSettings) (table : Table) (policy : FailurePolicy)
    (id : TaskId) : (start settings table policy).service.stage? id = none := by
  simp [start, Service.new, Service.stage?]

/-- A call that comes to a process sets no options but those of the settings and of a profile. -/
theorem fits_of_callsOf (h : (id, c) ∈ callsOf (start settings table policy) k es) :
    c.Fits settings :=
  System.fits_of_effects (stage?_start settings table policy) (mem_effects_of_callsOf h)

/-- A call that comes to a process on behalf of a request is one of its block. -/
theorem mem_block_of_callsOf (h : (id, c) ∈ callsOf (start settings table policy) k es)
    {fen : String} {difficulty : Double}
    (hjob : ((start settings table policy).after es).service.job? id =
      some (.move fen difficulty)) :
    c ∈ Service.setupCalls settings (table.resolve difficulty) ∨
      ∃ n, c ∈ Service.searchCalls (table.resolve difficulty) fen n := by
  rw [System.service_after] at hjob
  exact System.call_mem_of_effects (stage?_start settings table policy id) hjob
    (mem_effects_of_callsOf h)

end Origins

end Sparring.Uci
