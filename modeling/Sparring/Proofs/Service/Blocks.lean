import Sparring.Proofs.Service.Turns

/-!
# The block of calls of a request

What a request calls is told here without the service: the calls that set up its engine if no game
has been started on it yet, a new game, the position, and the search, whose number is one more
than the number of searches before it (`block`); and nothing after the first call that does not
succeed (`reached`). Served one after another, requests make their blocks one after another
(`serve`); a ledger of the calls made so far is all that a block depends on.

A request inside the gate has made a part of its block and has the other part before it
(`Serving`). `Serving.advance` and `Serving.reached_failed` say what becomes of this when its
outstanding call comes back, and `serving_firstStage` says how it begins.
-/

namespace Sparring

/-! ## The calls of one request after another -/

namespace Service

/-- A request for a move. -/
structure Request where
  task : TaskId
  fen : String
  difficulty : Double

/-- A request behind the gate, with the ways its calls have come back so far. -/
structure Visit where
  request : Request
  results : List CallResult

/-- What the calls made so far have left behind. -/
structure Ledger where
  /-- The models on whose engine a game has been started. -/
  ready : List String
  /-- The number of searches submitted. -/
  goes : Nat

namespace Ledger

/-- The ledger after a call. -/
def note (l : Ledger) : EngineCall → Ledger
  | .newGame model => if model ∈ l.ready then l else { l with ready := l.ready ++ [model] }
  | .go .. => { l with goes := l.goes + 1 }
  | _ => l

/-- The ledger after a row of calls. -/
def after (l : Ledger) (calls : List EngineCall) : Ledger := calls.foldl note l

theorem after_append (l : Ledger) (xs ys : List EngineCall) :
    l.after (xs ++ ys) = (l.after xs).after ys := List.foldl_append

end Ledger

/-- The calls that set up an engine for a profile. -/
def setupCalls (settings : EngineSettings) (p : Profile) : List EngineCall :=
  [.create p.model,
    .setOption p.model "WeightsFile" (settings.weightsFile p.model),
    .setOption p.model "Temperature" p.temperature.toText,
    .setOption p.model "NNCacheSize" (toString settings.cacheSize)]

/-- The calls that have an engine search a position. -/
def searchCalls (p : Profile) (fen : String) (n : SearchId) : List EngineCall :=
  [.newGame p.model, .setPosition p.model fen, .go p.model n p.limits]

/-- The calls that a request makes if all of them succeed. -/
def block (settings : EngineSettings) (table : Table) (l : Ledger) (r : Request) :
    List EngineCall :=
  let p := table.resolve r.difficulty
  (if p.model ∈ l.ready then [] else setupCalls settings p) ++ searchCalls p r.fen ⟨l.goes + 1⟩

theorem block_of_ready {settings : EngineSettings} {table : Table} {l : Ledger} {r : Request}
    (h : (table.resolve r.difficulty).model ∈ l.ready) :
    block settings table l r =
      searchCalls (table.resolve r.difficulty) r.fen ⟨l.goes + 1⟩ := by
  simp [block, h]

theorem block_of_absent {settings : EngineSettings} {table : Table} {l : Ledger} {r : Request}
    (h : (table.resolve r.difficulty).model ∉ l.ready) :
    block settings table l r = setupCalls settings (table.resolve r.difficulty) ++
      searchCalls (table.resolve r.difficulty) r.fen ⟨l.goes + 1⟩ := by
  simp [block, h]

/-- The calls of a row that are made: each of them when the one before it has succeeded. -/
def reached : List EngineCall → List CallResult → List EngineCall
  | c :: rest, .ok :: results => c :: reached rest results
  | c :: _, _ => [c]
  | [], _ => []

/-- The calls made for a request. -/
def Visit.calls (settings : EngineSettings) (table : Table) (l : Ledger) (v : Visit) :
    List EngineCall := reached (block settings table l v.request) v.results

/-- The calls made when requests are served one after another. -/
def serve (settings : EngineSettings) (table : Table) (l : Ledger) : List Visit → List EngineCall
  | [] => []
  | v :: rest =>
    v.calls settings table l ++ serve settings table (l.after (v.calls settings table l)) rest

theorem serve_concat (settings : EngineSettings) (table : Table) (l : Ledger) (vs : List Visit)
    (v : Visit) : serve settings table l (vs ++ [v]) = serve settings table l vs ++
      v.calls settings table (l.after (serve settings table l vs)) := by
  induction vs generalizing l with
  | nil => simp [serve, Ledger.after]
  | cons u vs ih =>
    rw [List.cons_append, serve, serve, ih, List.append_assoc, Ledger.after_append]

theorem replicate_ok_concat (made : List EngineCall) (c : EngineCall) :
    List.replicate made.length CallResult.ok ++ [.ok] = .replicate (made ++ [c]).length .ok := by
  rw [List.length_append, List.length_singleton, List.replicate_succ']

/-- After calls that have succeeded comes the next one. -/
theorem reached_of_ok (made ahead : List EngineCall) :
    reached (made ++ ahead) (List.replicate made.length .ok) = made ++ ahead.take 1 := by
  induction made with
  | nil => cases ahead <;> rfl
  | cons c made ih =>
    rw [List.cons_append, List.length_cons, List.replicate_succ, reached, ih, List.cons_append]

/-- After a call that has not succeeded comes nothing. -/
theorem reached_of_failed (made ahead : List EngineCall) (c : EngineCall) {r : CallResult}
    (hr : r ≠ .ok) :
    reached (made ++ c :: ahead) (List.replicate made.length .ok ++ [r]) = made ++ [c] := by
  induction made with
  | nil => cases r <;> first | rfl | exact absurd rfl hr
  | cons b made ih =>
    rw [List.cons_append, List.length_cons, List.replicate_succ, List.cons_append, reached, ih,
      List.cons_append]

/-- The numbers of the searches that a row of calls submits. -/
def searches (calls : List EngineCall) : List SearchId :=
  calls.filterMap fun c =>
    match c with
    | .go _ n _ => some n
    | _ => none

theorem searches_append (xs ys : List EngineCall) :
    searches (xs ++ ys) = searches xs ++ searches ys := List.filterMap_append

theorem searches_of_plain {stage : Stage} (h : stage.Plain) :
    searches stage.call?.toList = [] := by
  cases stage with
  | setup p rest setup => cases setup <;> rfl
  | submitting => exact h.elim
  | waiting | startingGame | positioning | thinking | finished => rfl

/-- The first numbers that are issued. -/
def firstNumbers (count : Nat) : List SearchId := (List.range count).map fun k => ⟨k + 1⟩

end Service

/-! ## How a request moves on -/

/-- What a setup has still before it, from the outstanding call on. -/
def Setup.ahead (settings : EngineSettings) (p : Profile) : Setup → List EngineCall
  | creating => .create p.model :: (settings.options p).map fun o => .setOption p.model o.1 o.2
  | configuring _ current remaining =>
    (current :: remaining).map fun o => .setOption p.model o.1 o.2

/-- What a request for a position has still before it, from the outstanding call on, if its search
gets the number `n`. -/
def Stage.ahead (settings : EngineSettings) (fen : String) (n : SearchId) :
    Stage → List EngineCall
  | setup p _ s => s.ahead settings p ++ Service.searchCalls p fen n
  | startingGame p _ => Service.searchCalls p fen n
  | positioning p fen' => [.setPosition p.model fen', .go p.model n p.limits]
  | submitting p m => [.go p.model m p.limits]
  | waiting | thinking .. | finished _ => []

/-- The first call that a request has before it is the outstanding one. -/
theorem Stage.take_ahead (settings : EngineSettings) (fen : String) (n : SearchId)
    (stage : Stage) : (stage.ahead settings fen n).take 1 = stage.call?.toList := by
  cases stage with
  | setup p rest s => cases s <;> rfl
  | waiting | startingGame | positioning | submitting | thinking | finished => rfl

theorem Stage.ahead_of_call? (settings : EngineSettings) (fen : String) (n : SearchId)
    {stage : Stage} {c : EngineCall} (h : stage.call? = some c) :
    stage.ahead settings fen n = c :: (stage.ahead settings fen n).tail := by
  have htake := take_ahead settings fen n stage
  rw [h] at htake
  cases ha : stage.ahead settings fen n with
  | nil => simp [ha] at htake
  | cons b rest =>
    rw [ha] at htake
    cases htake
    rfl

namespace Service

/-- The ways a request moves on when its outstanding call has succeeded and no other search is
armed. -/
inductive Advance (s : Service) (fen : String) : Stage → Turn → Prop
  /-- The setup of the engine goes on. -/
  | configuring {p : Profile} {rest : List Profile} {setup setup' : Setup} :
      setup.next s.settings p = .more setup' →
      Advance s fen (.setup p rest setup) (.to (.setup p rest setup') s)
  /-- The engine is ready. -/
  | configured {p : Profile} {rest : List Profile} {setup : Setup} {entry : EngineEntry} :
      setup.next s.settings p = .ready entry →
      Advance s fen (.setup p rest setup)
        (.to (.startingGame p rest) { s with registry := s.registry.insert entry })
  | started {p : Profile} {rest : List Profile} :
      Advance s fen (.startingGame p rest) (.to (.positioning p fen) s)
  | placed {p : Profile} {fen' : String} :
      s.handoff.armed = none →
      Advance s fen (.positioning p fen')
        (.to (.submitting p ⟨s.handoff.issued + 1⟩) { s with handoff := s.handoff.arm.2 })
  | submitted {p : Profile} {n : SearchId} :
      Advance s fen (.submitting p n) (.to (.thinking p n) s)

theorem advance_of_succeed {s : Service} {fen : String} {difficulty : Double} {stage : Stage}
    {turn : Turn} (hempty : stage.search? = none → s.handoff.armed = none)
    (h : s.succeed (.move fen difficulty) stage = some turn) : Advance s fen stage turn := by
  cases stage with
  | setup p rest setup =>
    simp only [succeed] at h
    split at h
    next hnext =>
      cases h
      exact .configuring hnext
    next hnext =>
      cases h
      exact .configured hnext
  | startingGame p rest =>
    cases h
    exact .started
  | positioning p fen' =>
    have hnone := hempty rfl
    cases h
    have hadv : Advance s fen (.positioning p fen') (.to (.submitting p ⟨s.handoff.issued + 1⟩)
        { s with handoff := s.handoff.arm.2 }) := .placed hnone
    rw [arm, Handoff.arm_of_empty hnone]
    rwa [Handoff.arm_of_empty hnone] at hadv
  | submitting p n =>
    cases h
    exact .submitted
  | waiting | thinking | finished => cases h

/-! ## Ledger and block -/

/-- Whether a ledger tells which engines are ready and how many numbers have been issued. -/
structure Kept (s : Service) (l : Ledger) : Prop where
  ready : s.registry.entries.map (·.model) = l.ready
  goes : s.handoff.issued = l.goes

/-- How far a request inside the gate has come with its block: the calls before the outstanding one
have all succeeded. -/
structure Serving (s : Service) (calls : List EngineCall) (v : Visit) (stage : Stage) : Prop where
  split : ∃ n made, calls = made ++ stage.ahead s.settings v.request.fen n ∧
    v.results = .replicate made.length .ok ∧
    (stage.search? = none → n.number = s.handoff.issued + 1)
  /-- An engine that is being set up is not there yet. -/
  absent : ∀ p rest setup, stage = .setup p rest setup →
    p.model ∉ s.registry.entries.map (·.model)

theorem find?_eq_none {registry : Registry} {model : String} :
    registry.find? model = none ↔ model ∉ registry.entries.map (·.model) := by
  simp only [Registry.find?, List.find?_eq_none, List.mem_map, not_exists, not_and,
    decide_eq_true_eq]

theorem configure_eq_ready {model : String} {accepted : List EngineOption}
    (rest : List EngineOption) {entry : EngineEntry}
    (h : Setup.configure model accepted rest = .ready entry) :
    rest = [] ∧ entry.model = model := by
  cases rest with
  | nil =>
    cases h
    exact ⟨rfl, rfl⟩
  | cons o rest => cases h

theorem configure_eq_more {settings : EngineSettings} {p : Profile}
    {accepted : List EngineOption} (rest : List EngineOption) {setup : Setup}
    (h : Setup.configure p.model accepted rest = .more setup) :
    setup.ahead settings p = rest.map fun o => .setOption p.model o.1 o.2 := by
  cases rest with
  | nil => cases h
  | cons o rest =>
    cases h
    rfl

/-- The last call of a setup gives the engine its entry. -/
theorem next_eq_ready {settings : EngineSettings} {p : Profile} {setup : Setup}
    {entry : EngineEntry} (h : setup.next settings p = .ready entry) :
    setup.ahead settings p = [setup.call p.model] ∧ entry.model = p.model := by
  cases setup with
  | creating =>
    obtain ⟨hrest, hmodel⟩ := configure_eq_ready (settings.options p) h
    exact ⟨by rw [Setup.ahead, hrest]; rfl, hmodel⟩
  | configuring accepted current remaining =>
    obtain ⟨hrest, hmodel⟩ := configure_eq_ready remaining h
    exact ⟨by rw [Setup.ahead, hrest]; rfl, hmodel⟩

/-- After any other call of a setup the rest is still to come. -/
theorem next_eq_more {settings : EngineSettings} {p : Profile} {setup setup' : Setup}
    (h : setup.next settings p = .more setup') :
    setup.ahead settings p = setup.call p.model :: setup'.ahead settings p := by
  cases setup with
  | creating =>
    rw [configure_eq_more (settings.options p) h]
    rfl
  | configuring accepted current remaining =>
    rw [configure_eq_more remaining h]
    rfl

theorem Setup.note_call (l : Ledger) (model : String) (setup : Setup) :
    l.note (setup.call model) = l := by
  cases setup <;> rfl

section Advance

variable {s : Service} {fen : String} {stage : Stage} {turn : Turn} {calls : List EngineCall}
  {v : Visit}

theorem Advance.quiet (h : Advance s fen stage turn) : turn.escalated = none := by
  cases h <;> rfl

theorem Advance.settings_eq (h : Advance s fen stage turn) :
    turn.service.settings = s.settings := by
  cases h <;> rfl

theorem Advance.kept (h : Advance s fen stage turn) {l : Ledger} (hl : Kept s l)
    (habsent : ∀ p rest setup, stage = .setup p rest setup →
      p.model ∉ s.registry.entries.map (·.model)) :
    Kept turn.service (l.after turn.stage.call?.toList) := by
  obtain ⟨hready, hgoes⟩ := hl
  cases h with
  | @configuring p rest setup setup' hnext =>
    have hnote : l.after (Stage.setup p rest setup').call?.toList = l := Setup.note_call l _ setup'
    rw [Turn.to, hnote]
    exact ⟨hready, hgoes⟩
  | @configured p rest setup entry hnext =>
    have hnew : p.model ∉ l.ready := hready ▸ habsent p rest setup rfl
    have hnote : l.after (Stage.startingGame p rest).call?.toList =
        { l with ready := l.ready ++ [p.model] } := if_neg hnew
    rw [Turn.to, hnote]
    refine ⟨?_, hgoes⟩
    simp [Registry.insert, (next_eq_ready hnext).2, hready]
  | started => exact ⟨hready, hgoes⟩
  | placed hempty =>
    refine ⟨hready, ?_⟩
    simp only [Turn.to]
    rw [Handoff.arm_of_empty hempty]
    exact congrArg (· + 1) hgoes
  | submitted => exact ⟨hready, hgoes⟩

theorem Advance.numbered (h : Advance s fen stage turn) :
    firstNumbers turn.service.handoff.issued =
      firstNumbers s.handoff.issued ++ searches turn.stage.call?.toList := by
  cases h with
  | @configuring p rest setup setup' =>
    cases setup' <;> exact (List.append_nil _).symm
  | configured | started | submitted => exact (List.append_nil _).symm
  | placed hempty =>
    simp only [Turn.to]
    rw [Handoff.arm_of_empty hempty, firstNumbers, List.range_succ, List.map_append]
    rfl

/-- A request that moves on has one call less before it. -/
theorem Advance.ahead_eq (h : Advance s fen stage turn) {n : SearchId}
    (hn : stage.search? = none → n.number = s.handoff.issued + 1) {c : EngineCall}
    (hc : stage.call? = some c) :
    stage.ahead s.settings fen n = c :: turn.stage.ahead s.settings fen n := by
  cases h with
  | configuring hnext =>
    cases hc
    rw [Turn.to, Stage.ahead, Stage.ahead, next_eq_more hnext, List.cons_append]
  | configured hnext =>
    cases hc
    rw [Turn.to, Stage.ahead, Stage.ahead, (next_eq_ready hnext).1,
      List.singleton_append]
  | started =>
    cases hc
    rfl
  | placed =>
    cases hc
    have hnumber : n = ⟨s.handoff.issued + 1⟩ := by rw [← hn rfl]
    rw [hnumber]
    rfl
  | submitted =>
    cases hc
    rfl

/-- A request that moves on stays with its block. -/
theorem Serving.advance (h : Serving s calls v stage) (hadv : Advance s v.request.fen stage turn) :
    (∀ s' : Service, s'.settings = turn.service.settings → s'.registry = turn.service.registry →
      s'.handoff = turn.service.handoff →
      Serving s' calls ⟨v.request, v.results ++ [.ok]⟩ turn.stage) ∧
    reached calls (v.results ++ [.ok]) = reached calls v.results ++ turn.stage.call?.toList := by
  obtain ⟨⟨n, made, hcalls, hresults, hn⟩, habsent⟩ := h
  obtain ⟨c, hc⟩ : ∃ c, stage.call? = some c := by cases hadv <;> exact ⟨_, rfl⟩
  have hahead := hadv.ahead_eq hn hc
  -- The outstanding call moves from what is ahead to what has been made.
  have hsplit : calls = (made ++ [c]) ++ turn.stage.ahead s.settings v.request.fen n := by
    rw [hcalls, hahead, List.append_assoc, List.singleton_append]
  have hmore : v.results ++ [.ok] = List.replicate (made ++ [c]).length .ok := by
    rw [hresults, replicate_ok_concat]
  refine ⟨fun s' hsettings hregistry hhandoff => ⟨⟨n, made ++ [c], ?_, hmore, ?_⟩, ?_⟩, ?_⟩
  · rw [hsettings, hadv.settings_eq]
    exact hsplit
  · intro hno
    rw [hhandoff]
    cases hadv with
    | configuring | configured | started => exact hn rfl
    | placed | submitted => cases hno
  · intro p rest setup' hstage
    rw [hregistry]
    cases hadv with
    | configuring =>
      cases hstage
      exact habsent _ _ _ rfl
    | configured | started | placed | submitted => cases hstage
  · have hold : reached calls v.results = made ++ [c] := by
      rw [hcalls, hresults, reached_of_ok, Stage.take_ahead, hc, Option.toList_some]
    rw [hmore, hold, hsplit, reached_of_ok, Stage.take_ahead]

/-- A call that does not succeed is the last of its block. -/
theorem Serving.reached_failed (h : Serving s calls v stage) {c : EngineCall}
    (hc : stage.call? = some c) {r : CallResult} (hr : r ≠ .ok) :
    reached calls (v.results ++ [r]) = reached calls v.results := by
  obtain ⟨⟨n, made, hcalls, hresults, -⟩, -⟩ := h
  have hahead := Stage.ahead_of_call? s.settings v.request.fen n hc
  rw [hcalls, hresults, reached_of_ok, Stage.take_ahead, hc, hahead, reached_of_failed _ _ _ hr,
    Option.toList_some]

end Advance

/-- A request that is let in starts with its block. -/
theorem serving_firstStage {s : Service} (s' : Service) {l : Ledger} (hl : Kept s l) (r : Request)
    (hsettings : s'.settings = s.settings) (hregistry : s'.registry = s.registry)
    (hhandoff : s'.handoff = s.handoff) {stage : Stage}
    (hstage : stage = s.firstStage (.move r.fen r.difficulty)) :
    Serving s' (block s.settings s.table l r) ⟨r, []⟩ stage ∧
      reached (block s.settings s.table l r) [] = stage.call?.toList ∧
      Kept s' (l.after stage.call?.toList) := by
  subst hstage
  have hfirst : s.firstStage (.move r.fen r.difficulty) =
      s.seek (.move r.fen r.difficulty) (s.table.resolve r.difficulty) [] := rfl
  have hmodels : s'.registry.entries.map (·.model) = l.ready := by rw [hregistry, hl.ready]
  have hissued : s'.handoff.issued = l.goes := by rw [hhandoff, hl.goes]
  rw [hfirst]
  unfold seek
  split
  next entry hfind =>
    have hin : (s.table.resolve r.difficulty).model ∈ l.ready := by
      by_contra hno
      rw [← hl.ready, ← find?_eq_none, hfind] at hno
      cases hno
    rw [block_of_ready hin]
    refine ⟨⟨⟨⟨l.goes + 1⟩, [], rfl, rfl, fun _ => congrArg (· + 1) hissued.symm⟩, ?_⟩, rfl, ?_⟩
    · intro _ _ _ h
      cases h
    · have hnote : l.after [.newGame (s.table.resolve r.difficulty).model] = l := if_pos hin
      exact ⟨hmodels.trans (congrArg Ledger.ready hnote.symm),
        hissued.trans (congrArg Ledger.goes hnote.symm)⟩
  next hfind =>
    have hout : (s.table.resolve r.difficulty).model ∉ l.ready := by
      rwa [← hl.ready, ← find?_eq_none]
    rw [block_of_absent hout]
    refine ⟨⟨⟨⟨l.goes + 1⟩, [], ?_, rfl, fun _ => congrArg (· + 1) hissued.symm⟩, ?_⟩, rfl,
      ⟨hmodels, hissued⟩⟩
    · rw [hsettings]
      rfl
    · intro p rest setup h
      cases h
      rwa [hmodels]

end Service

end Sparring
