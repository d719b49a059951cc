import Sparring.Proofs.Http.Responses

/-!
# What a response carries

A response is meant to be a JSON object with one member: the move under `result`, or a message under
`error`. One kind of response is not. A query that gives the position or the difficulty twice is
refused while its parameters are read, before anything is known of the request, and the response to
it is a plain text (`Repeats`, `ofQuery_eq_error`). `body_account` says that there is no other: it
holds of every run of every system, under either policy and whatever the engines do.
-/

namespace Sparring

/-- A fold of fallible steps fails exactly if one of them does and all those before it succeed. -/
theorem foldlM_eq_error {α β ε : Type} {f : β → α → Except ε β} {as : List α} {b : β} {e : ε} :
    as.foldlM f b = .error e ↔
      ∃ before a after c, as = before ++ a :: after ∧ before.foldlM f b = .ok c ∧
        f c a = .error e := by
  -- The step that fails is the first one, or one of the rest when the first has succeeded.
  induction as generalizing b with
  | nil => simp [pure, Except.pure]
  | cons a as ih =>
    rw [List.foldlM_cons]
    cases hstep : f b a with
    | error e' =>
      have hfirst : (Except.error e' >>= fun c => as.foldlM f c) = .error e' := rfl
      rw [hfirst]
      constructor
      · intro h
        exact ⟨[], a, as, b, rfl, rfl, hstep.trans h⟩
      · rintro ⟨before, x, after, c, hsplit, hbefore, hx⟩
        cases before with
        | nil =>
          cases hsplit
          cases hbefore
          exact hstep.symm.trans hx
        | cons y before =>
          cases hsplit
          rw [List.foldlM_cons, hstep] at hbefore
          cases hbefore
    | ok c =>
      have hrest : (Except.ok c >>= fun c => as.foldlM f c) = as.foldlM f c := rfl
      rw [hrest, ih]
      constructor
      · rintro ⟨before, x, after, d, rfl, hbefore, hx⟩
        refine ⟨a :: before, x, after, d, rfl, ?_, hx⟩
        rw [List.foldlM_cons, hstep]
        exact hbefore
      · rintro ⟨before, x, after, d, hsplit, hbefore, hx⟩
        cases before with
        | nil =>
          cases hsplit
          cases hbefore
          cases hstep.symm.trans hx
        | cons y before =>
          cases hsplit
          rw [List.foldlM_cons, hstep] at hbefore
          exact ⟨before, x, after, d, rfl, hbefore, hx⟩

namespace MoveParameters

theorem add_eq_error {p : MoveParameters} {pair : String × String} {name : String} :
    p.add pair = .error name ↔
      pair.1 = name ∧
        (name = "fen" ∧ p.fen.isSome = true ∨
          name = "difficulty" ∧ p.difficulty.isSome = true) := by
  obtain ⟨given, value⟩ := pair
  by_cases hfen : given = "fen"
  · subst hfen
    have hadd : p.add ("fen", value) = .error name ↔ p.fen.isSome = true ∧ "fen" = name := by
      by_cases hsome : p.fen.isSome = true <;> simp [add, hsome]
    rw [hadd]
    constructor
    · rintro ⟨hsome, rfl⟩
      exact ⟨rfl, Or.inl ⟨rfl, hsome⟩⟩
    · rintro ⟨rfl, ⟨-, hsome⟩ | ⟨hother, -⟩⟩
      · exact ⟨hsome, rfl⟩
      · exact absurd hother (by simp)
  · by_cases hdifficulty : given = "difficulty"
    · subst hdifficulty
      have hadd : p.add ("difficulty", value) = .error name ↔
          p.difficulty.isSome = true ∧ "difficulty" = name := by
        by_cases hsome : p.difficulty.isSome = true <;> simp [add, hsome]
      rw [hadd]
      constructor
      · rintro ⟨hsome, rfl⟩
        exact ⟨rfl, Or.inr ⟨rfl, hsome⟩⟩
      · rintro ⟨rfl, ⟨hother, -⟩ | ⟨-, hsome⟩⟩
        · exact absurd hother (by simp)
        · exact ⟨hsome, rfl⟩
    · simp only [add, hfen, hdifficulty, if_false]
      constructor
      · intro h
        cases h
      · rintro ⟨rfl, ⟨h, -⟩ | ⟨h, -⟩⟩
        · exact absurd h hfen
        · exact absurd h hdifficulty

end MoveParameters

namespace Http

/-! ## Repeated parameters -/

/-- Whether `name` is the parameter that a query is the first to give a second value to. -/
structure Repeats (query : List Char) (name : String) : Prop where
  known : name = "fen" ∨ name = "difficulty"
  split : ∃ before value after, Query.pairs query = before ++ (name, value) :: after ∧
    valuesIn name before ≠ [] ∧ (valuesIn "fen" before).length ≤ 1 ∧
    (valuesIn "difficulty" before).length ≤ 1

theorem exists_toList_iff {values : List String} :
    (∃ o : Option String, o.toList = values) ↔ values.length ≤ 1 := by
  match values with
  | [] => exact ⟨fun _ => Nat.zero_le 1, fun _ => ⟨none, rfl⟩⟩
  | [value] => exact ⟨fun _ => Nat.le_refl 1, fun _ => ⟨some value, rfl⟩⟩
  | _ :: _ :: _ =>
    constructor
    · rintro ⟨o, ho⟩
      cases o <;> cases ho
    · intro h
      simp at h

/-- The name that the reading of a query fails with is that of the repeated parameter. -/
theorem ofQuery_eq_error {query : List Char} {name : String} :
    MoveParameters.ofQuery query = .error name ↔ Repeats query name := by
  unfold MoveParameters.ofQuery
  -- The reading stops at the first pair whose parameter has its value already.
  rw [foldlM_eq_error]
  constructor
  · rintro ⟨before, ⟨given, value⟩, after, p, hsplit, hbefore, hadd⟩
    obtain ⟨hfen, hdifficulty⟩ := MoveParameters.foldlM_add.1 hbefore
    simp only [Option.toList_none, List.nil_append] at hfen hdifficulty
    obtain ⟨rfl, hrepeated⟩ := MoveParameters.add_eq_error.1 hadd
    have honce : ∀ {o : Option String} {values : List String}, o.toList = values →
        values.length ≤ 1 := fun h => exists_toList_iff.1 ⟨_, h⟩
    have hsome : ∀ {o : Option String} {values : List String}, o.toList = values →
        o.isSome = true → values ≠ [] := by
      rintro o values rfl ho
      obtain ⟨a, rfl⟩ := Option.isSome_iff_exists.1 ho
      exact List.cons_ne_nil a []
    refine ⟨hrepeated.imp And.left And.left, before, value, after, hsplit, ?_, honce hfen,
      honce hdifficulty⟩
    rcases hrepeated with ⟨rfl, hgiven⟩ | ⟨rfl, hgiven⟩
    · exact hsome hfen hgiven
    · exact hsome hdifficulty hgiven
  · rintro ⟨hknown, before, value, after, hsplit, hgiven, hfen, hdifficulty⟩
    obtain ⟨fen, hfen⟩ := exists_toList_iff.2 hfen
    obtain ⟨difficulty, hdifficulty⟩ := exists_toList_iff.2 hdifficulty
    have hsome : ∀ {o : Option String} {values : List String}, o.toList = values →
        values ≠ [] → o.isSome = true := by
      rintro (_ | a) values rfl ho
      · exact absurd rfl ho
      · rfl
    refine ⟨before, (name, value), after, ⟨fen, difficulty⟩, hsplit, ?_,
      MoveParameters.add_eq_error.2 ⟨rfl, ?_⟩⟩
    · exact MoveParameters.foldlM_add.2 ⟨hfen, hdifficulty⟩
    · rcases hknown with rfl | rfl
      · exact Or.inl ⟨rfl, hsome hfen hgiven⟩
      · exact Or.inr ⟨rfl, hsome hdifficulty hgiven⟩

theorem exists_repeats_iff {query : List Char} :
    (∃ name, Repeats query name) ↔
      2 ≤ (values "fen" query).length ∨ 2 ≤ (values "difficulty" query).length := by
  have hread : (∃ p, MoveParameters.ofQuery query = .ok p) ↔
      (values "fen" query).length ≤ 1 ∧ (values "difficulty" query).length ≤ 1 := by
    rw [← exists_toList_iff, ← exists_toList_iff]
    constructor
    · rintro ⟨p, hp⟩
      obtain ⟨hfen, hdifficulty⟩ := ofQuery_eq_ok.1 hp
      exact ⟨⟨_, hfen⟩, ⟨_, hdifficulty⟩⟩
    · rintro ⟨⟨fen, hfen⟩, ⟨difficulty, hdifficulty⟩⟩
      exact ⟨⟨fen, difficulty⟩, ofQuery_eq_ok.2 ⟨hfen, hdifficulty⟩⟩
  have hfails : (∃ name, Repeats query name) ↔ ¬∃ p, MoveParameters.ofQuery query = .ok p := by
    simp only [← ofQuery_eq_error]
    cases MoveParameters.ofQuery query <;> simp
  rw [hfails, hread]
  omega

/-! ## Objects with one member -/

/-- Whether a response is a success that tells a result and nothing else. -/
structure TellsResult (r : HttpResponse) : Prop where
  status : r.status = 200
  body : ∃ result, r.body = .json (.obj [("result", result)])

/-- Whether a response is a failure that tells a message and nothing else. -/
structure TellsError (r : HttpResponse) : Prop where
  status : r.status = 400 ∨ r.status = 422 ∨ r.status = 500
  body : ∃ message, r.body = .json (.obj [("error", .str message)])

theorem not_tells_of_text {r : HttpResponse} {text : String} (h : r.body = .text text) :
    ¬(TellsResult r ∨ TellsError r) := by
  rintro (⟨-, _, hbody⟩ | ⟨-, _, hbody⟩) <;> cases h.symm.trans hbody

theorem tells_respond (r : Except ServiceError Move) :
    TellsResult (respond r) ∨ TellsError (respond r) := by
  cases r with
  | ok m => exact Or.inl ⟨rfl, m.toJson, rfl⟩
  | error e =>
    refine Or.inr ⟨?_, e.message, rfl⟩
    cases e with
    | invalidRequest => exact Or.inl rfl
    | noLegalMove => exact Or.inr (Or.inl rfl)
    | engine | handoff => exact Or.inr (Or.inr rfl)

/-- The response to a query that repeats a parameter. -/
def repetitionResponse (name : String) : HttpResponse :=
  ⟨400, none, .text ("Failed to deserialize query string: duplicate field `" ++ name ++ "`")⟩

/-- What is answered at once is an object with one member unless the query repeats a parameter. -/
theorem reply_cases {query : List Char} {r : HttpResponse} (h : routeQuery query = .reply r) :
    (∃ name, Repeats query name ∧ r = repetitionResponse name) ∨
      (∀ name, ¬Repeats query name) ∧ (TellsResult r ∨ TellsError r) := by
  unfold routeQuery at h
  cases hread : MoveParameters.ofQuery query with
  | error name =>
    rw [hread] at h
    cases h
    exact Or.inl ⟨name, ofQuery_eq_error.1 hread, rfl⟩
  | ok p =>
    have hno : ∀ name, ¬Repeats query name := by
      intro name hname
      cases hread.symm.trans (ofQuery_eq_error.2 hname)
    rw [hread] at h
    simp only at h
    split at h <;> cases h
    exact Or.inr ⟨hno, tells_respond _⟩

theorem Asks.not_repeats {query : List Char} {fen : String} {d : Double} (h : Asks query fen d)
    (name : String) : ¬Repeats query name := by
  intro hname
  rcases exists_repeats_iff.1 ⟨name, hname⟩ with htwice | htwice
  · exact h.not_rejected (.repeatedFen htwice)
  · exact h.not_rejected (.repeatedDifficulty htwice)

/-- What a query says about the body of the response to it. -/
structure BodyAccount (query : List Char) (response : HttpResponse) : Prop where
  /-- The response is an object with one of the two keys exactly if no parameter is given twice. -/
  object : (TellsResult response ∨ TellsError response) ↔
    (values "fen" query).length ≤ 1 ∧ (values "difficulty" query).length ≤ 1
  /-- It has one of the keys only. -/
  single : ¬(TellsResult response ∧ TellsError response)
  /-- If a parameter is given twice, it is a text that names the first one that is. -/
  text : ∀ name, Repeats query name → response = repetitionResponse name
  /-- Some parameter is the first one to be given twice unless none is. -/
  named : ¬(TellsResult response ∨ TellsError response) → ∃ name, Repeats query name

theorem bodyAccount_of_cases {query : List Char} {response : HttpResponse}
    (h : (∃ name, Repeats query name ∧ response = repetitionResponse name) ∨
      (∀ name, ¬Repeats query name) ∧ (TellsResult response ∨ TellsError response)) :
    BodyAccount query response := by
  have hsingle : ¬(TellsResult response ∧ TellsError response) := by
    rintro ⟨⟨hok, -⟩, ⟨hfailed, -⟩⟩
    rw [hok] at hfailed
    revert hfailed
    decide
  have honce : (∀ name, ¬Repeats query name) ↔
      (values "fen" query).length ≤ 1 ∧ (values "difficulty" query).length ≤ 1 := by
    rw [← not_exists, exists_repeats_iff]
    omega
  rcases h with ⟨name, hname, rfl⟩ | ⟨hno, htells⟩
  · have htext := not_tells_of_text (r := repetitionResponse name) rfl
    refine ⟨?_, hsingle, fun other hother => ?_, fun _ => ⟨name, hname⟩⟩
    · rw [← honce]
      exact ⟨fun h => absurd h htext, fun h => absurd hname (h name)⟩
    · -- Reading a query fails with one name at most.
      have hsame := (ofQuery_eq_error.2 hname).symm.trans (ofQuery_eq_error.2 hother)
      rw [Except.error.inj hsame]
  · refine ⟨?_, hsingle, fun name hname => absurd hname (hno name), fun h => absurd htells h⟩
    rw [← honce]
    exact ⟨fun _ => hno, fun _ => htells⟩

end Http

namespace System

open Http

variable {σ ε : Type} [Backend σ ε]

/-- Every response is an object with the one key that goes with its status, unless the query gives a
parameter twice. -/
theorem body_account (s : System σ) (before later : List (Event ε)) {r : HttpRequest}
    (hget : r.method = "GET") (hroot : (splitTarget r.target).1 = ['/']) {response : HttpResponse}
    (h : ((s.after before).exchange r).response?
      (s.after (before ++ (arrival r ++ later))).service = some response) :
    BodyAccount (query r) response := by
  have hroute := route_eq_routeQuery hget hroot
  apply bodyAccount_of_cases
  cases hquery : routeQuery (query r) with
  | reply reply =>
    have hexchange : (s.after before).exchange r = .answered reply := by
      simp [exchange, hroute, hquery]
    rw [hexchange] at h
    cases h
    exact reply_cases hquery
  | move fen difficulty =>
    have hexchange : (s.after before).exchange r =
        .computing (s.after before).service.tasks.length := by
      simp [exchange, hroute, hquery]
    have hasks := routeQuery_eq_move.1 hquery
    rw [hexchange, Exchange.response?] at h
    split at h <;> cases h
    exact Or.inr ⟨hasks.not_repeats, tells_respond _⟩

/-- The run in which the two kings are served ends with a result. -/
theorem body_of_servedRun :
    bareKingsRequest.method = "GET" ∧ (splitTarget bareKingsRequest.target).1 = ['/'] ∧
      ∃ response, (rehearsing.exchange bareKingsRequest).response?
          (rehearsing.after (arrival bareKingsRequest ++ servedRun)).service = some response ∧
        response.status = 200 ∧ BodyAccount (query bareKingsRequest) response := by
  have hroot : (splitTarget bareKingsRequest.target).1 = ['/'] := by decide
  have hstatus : ((rehearsing.exchange bareKingsRequest).response?
      (rehearsing.after (arrival bareKingsRequest ++ servedRun)).service).map (·.status) =
        some 200 := by decide +kernel
  obtain ⟨response, hresponse, hok⟩ := Option.map_eq_some_iff.1 hstatus
  exact ⟨rfl, hroot, response, hresponse, hok,
    body_account rehearsing [] servedRun rfl hroot hresponse⟩

/-- A request that gives its position twice. -/
def doubledRequest : HttpRequest := ⟨"GET", "/?fen=a&fen=b&difficulty=0.5"⟩

/-- It is answered, and its answer is neither an object with a result nor one with an error. -/
theorem repeated_position_answered_in_text :
    doubledRequest.method = "GET" ∧ (splitTarget doubledRequest.target).1 = ['/'] ∧
      ∃ response, (rehearsing.exchange doubledRequest).response?
          (rehearsing.after (arrival doubledRequest ++ [])).service = some response ∧
        response.status = 400 ∧
        response.body =
          .text "Failed to deserialize query string: duplicate field `fen`" ∧
        ¬(TellsResult response ∨ TellsError response) := by
  have hroot : (splitTarget doubledRequest.target).1 = ['/'] := by decide
  have hpairs : Query.pairs (query doubledRequest) =
      [("fen", "a"), ("fen", "b"), ("difficulty", "0.5")] := by decide +kernel
  have hread : MoveParameters.ofQuery (query doubledRequest) = .error "fen" := by
    rw [MoveParameters.ofQuery, hpairs]
    rfl
  have hreply : route doubledRequest = .reply (repetitionResponse "fen") := by
    rw [route_eq_routeQuery rfl hroot, routeQuery, hread]
    rfl
  refine ⟨rfl, hroot, repetitionResponse "fen", ?_, rfl, rfl, not_tells_of_text rfl⟩
  simp [exchange, hreply, Exchange.response?]

end System

end Sparring
