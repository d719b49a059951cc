import Mathlib.Data.List.TakeWhile
import Sparring.Http
import Sparring.Proofs.Http.Escapes

/-!
# What a query asks for

A query gives values to parameters. It asks for a move (`Asks`) if it gives one position and one
difficulty, the position can be seen and stands on one line, and the difficulty is a finite number.
Such a query is passed on with the position and the difficulty it names (`routeQuery_eq_move`).
Every other query has one of the faults of `Rejected` and is answered at once, with the status of
an invalid request (`status_of_reply`).
-/

namespace Sparring

/-! ## Blank texts -/

/-- Nothing is left of a text exactly if all of it is blank. -/
theorem trimBlank_eq_nil {cs : List Char} : trimBlank cs = [] ↔ ∀ c ∈ cs, isBlank c = true := by
  have hend : trimBlank cs = [] ↔ ∀ c ∈ cs.dropWhile isBlank, isBlank c = true := by
    simp only [trimBlank, trimBlankEnd, List.reverse_eq_nil_iff, List.dropWhile_eq_nil_iff,
      List.mem_reverse]
  rw [hend]
  constructor
  · intro h c hc
    rw [← List.takeWhile_append_dropWhile (p := isBlank) (l := cs), List.mem_append] at hc
    rcases hc with hc | hc
    · exact List.mem_takeWhile_imp hc
    · exact h c hc
  · exact fun h c hc => h c ((List.dropWhile_sublist isBlank).mem hc)

theorem isLineBreak_iff {c : Char} : isLineBreak c = true ↔ c = '\n' ∨ c = '\r' := by
  simp [isLineBreak]

/-! ## The parameters of a query -/

/-- The values given under a name in a row of pairs. -/
def valuesIn (name : String) (pairs : List (String × String)) : List String :=
  (pairs.filter (·.1 = name)).map (·.2)

theorem valuesIn_cons (name : String) (pair : String × String) (pairs : List (String × String)) :
    valuesIn name (pair :: pairs) =
      if pair.1 = name then pair.2 :: valuesIn name pairs else valuesIn name pairs := by
  by_cases h : pair.1 = name <;> simp [valuesIn, h]

theorem toList_eq_toList {o p : Option String} : o.toList = p.toList ↔ p = o := by
  cases o <;> cases p <;> simp [eq_comm]

theorem toList_ne_of_isSome {o p : Option String} (h : p.isSome = true) (value : String)
    (rest : List String) : o.toList ≠ p.toList ++ value :: rest := by
  obtain ⟨a, rfl⟩ := Option.isSome_iff_exists.1 h
  cases o <;> simp

/-- The pairs are taken up exactly if each parameter is given once at most, counting what is there
already, and then the parameters hold what is given. -/
theorem MoveParameters.foldlM_add {pairs : List (String × String)} {p q : MoveParameters} :
    pairs.foldlM add p = .ok q ↔
      q.fen.toList = p.fen.toList ++ valuesIn "fen" pairs ∧
        q.difficulty.toList = p.difficulty.toList ++ valuesIn "difficulty" pairs := by
  induction pairs generalizing p with
  | nil =>
    obtain ⟨fen, difficulty⟩ := p
    obtain ⟨fen', difficulty'⟩ := q
    simp only [List.foldlM_nil, pure, Except.pure, Except.ok.injEq, mk.injEq, valuesIn,
      List.filter_nil, List.map_nil, List.append_nil, toList_eq_toList]
  | cons pair pairs ih =>
    obtain ⟨name, value⟩ := pair
    rw [List.foldlM_cons, valuesIn_cons, valuesIn_cons]
    by_cases hfen : name = "fen"
    · subst hfen
      by_cases hsome : p.fen.isSome = true
      · have hno := toList_ne_of_isSome (o := q.fen) hsome value (valuesIn "fen" pairs)
        simp [add, hsome, bind, Except.bind, hno]
      · have hnone : p.fen = none := by simpa using hsome
        simp [add, hnone, bind, Except.bind, ih]
    · by_cases hdifficulty : name = "difficulty"
      · subst hdifficulty
        by_cases hsome : p.difficulty.isSome = true
        · have hno := toList_ne_of_isSome (o := q.difficulty) hsome value
            (valuesIn "difficulty" pairs)
          simp [add, hsome, bind, Except.bind, hno]
        · have hnone : p.difficulty = none := by simpa using hsome
          simp [add, hnone, bind, Except.bind, ih]
      · simp [add, hfen, hdifficulty, bind, Except.bind, ih]

namespace Http

/-- The values that a query gives to a parameter, decoded, in order. -/
def values (name : String) (query : List Char) : List String :=
  valuesIn name (Query.pairs query)

/-- A query is read exactly if it gives no parameter twice. -/
theorem ofQuery_eq_ok {query : List Char} {p : MoveParameters} :
    MoveParameters.ofQuery query = .ok p ↔
      p.fen.toList = values "fen" query ∧ p.difficulty.toList = values "difficulty" query :=
  MoveParameters.foldlM_add

/-! ## Queries that ask for a move -/

/-- Whether a query asks for a move at a position and a difficulty. -/
structure Asks (query : List Char) (fen : String) (difficulty : Double) : Prop where
  given : values "fen" query = [fen]
  visible : ∃ c ∈ fen.toList, isBlank c = false
  unbroken : ∀ c ∈ fen.toList, c ≠ '\n' ∧ c ≠ '\r'
  read : ∃ raw, values "difficulty" query = [raw] ∧
    Binary.read? .double (trimBlank raw.toList) = some difficulty
  finite : difficulty.isFinite = true

theorem readDifficulty_eq_ok {raw : String} {d : Double} :
    readDifficulty raw = .ok d ↔
      Binary.read? .double (trimBlank raw.toList) = some d ∧ d.isFinite = true := by
  unfold readDifficulty
  cases Binary.read? .double (trimBlank raw.toList) with
  | none => simp
  | some d' =>
    by_cases hfinite : d'.isFinite = true
    · simp only [if_pos hfinite, Except.ok.injEq, Option.some.injEq]
      exact ⟨fun h => ⟨h, h ▸ hfinite⟩, And.left⟩
    · simp only [if_neg hfinite, Option.some.injEq, reduceCtorEq, false_iff]
      rintro ⟨rfl, hd⟩
      exact hfinite hd

/-- What the parameters have to be like for a position and a difficulty to be taken from them. -/
theorem validate_eq_ok {p : MoveParameters} {fen : String} {d : Double} :
    p.validate = .ok (fen, d) ↔
      p.fen = some fen ∧ (∃ c ∈ fen.toList, isBlank c = false) ∧
        (∀ c ∈ fen.toList, c ≠ '\n' ∧ c ≠ '\r') ∧
        ∃ raw, p.difficulty = some raw ∧ readDifficulty raw = .ok d := by
  obtain ⟨fen', difficulty⟩ := p
  cases fen' with
  | none => simp [MoveParameters.validate]
  | some text =>
    simp only [MoveParameters.validate, Option.some.injEq]
    -- The checks come in this order, and each passes on what the ones before it have found.
    by_cases hblank : (trimBlank text.toList).isEmpty = true
    · rw [if_pos hblank]
      rw [List.isEmpty_iff, trimBlank_eq_nil] at hblank
      refine ⟨fun h => (by cases h), ?_⟩
      rintro ⟨rfl, ⟨c, hc, hvisible⟩, -⟩
      rw [hblank c hc] at hvisible
      cases hvisible
    · rw [if_neg hblank]
      rw [List.isEmpty_iff, trimBlank_eq_nil] at hblank
      have hvisible : ∃ c ∈ text.toList, isBlank c = false := by simpa using hblank
      by_cases hbreak : text.toList.any isLineBreak = true
      · rw [if_pos hbreak]
        obtain ⟨c, hc, hline⟩ := List.any_eq_true.1 hbreak
        refine ⟨fun h => (by cases h), ?_⟩
        rintro ⟨rfl, -, hunbroken, -⟩
        rcases isLineBreak_iff.1 hline with rfl | rfl
        · exact absurd rfl (hunbroken _ hc).1
        · exact absurd rfl (hunbroken _ hc).2
      · rw [if_neg hbreak]
        have hunbroken : ∀ c ∈ text.toList, c ≠ '\n' ∧ c ≠ '\r' := by
          simpa [isLineBreak] using hbreak
        cases difficulty with
        | none => simp
        | some raw =>
          cases hread : readDifficulty raw with
          | error e => simp [Except.map, hread]
          | ok d' =>
            simp only [Except.map, hread, Except.ok.injEq, Prod.mk.injEq, Option.some.injEq]
            constructor
            · rintro ⟨rfl, rfl⟩
              exact ⟨rfl, hvisible, hunbroken, raw, rfl, hread⟩
            · rintro ⟨rfl, -, -, raw', rfl, hread'⟩
              exact ⟨rfl, Except.ok.inj (hread.symm.trans hread')⟩

theorem toList_eq_singleton {o : Option String} {a : String} : o.toList = [a] ↔ o = some a := by
  cases o <;> simp

/-- A query is passed on exactly if it asks for a move, and then with what it asks for. -/
theorem routeQuery_eq_move {query : List Char} {fen : String} {d : Double} :
    routeQuery query = .move fen d ↔ Asks query fen d := by
  unfold routeQuery
  cases hread : MoveParameters.ofQuery query with
  | error name =>
    refine ⟨fun h => (by cases h), fun h => ?_⟩
    obtain ⟨raw, hraw, -⟩ := h.read
    have hok : MoveParameters.ofQuery query = .ok ⟨some fen, some raw⟩ :=
      ofQuery_eq_ok.2 ⟨h.given.symm, hraw.symm⟩
    cases hread.symm.trans hok
  | ok p =>
    obtain ⟨hfen, hdifficulty⟩ := ofQuery_eq_ok.1 hread
    have hvalid : p.validate = .ok (fen, d) ↔ Asks query fen d := by
      rw [validate_eq_ok]
      constructor
      · rintro ⟨hgiven, hvisible, hunbroken, raw, hraw, hd⟩
        obtain ⟨hnumber, hfinite⟩ := readDifficulty_eq_ok.1 hd
        refine ⟨?_, hvisible, hunbroken, ⟨raw, ?_, hnumber⟩, hfinite⟩
        · rw [← hfen, hgiven, Option.toList_some]
        · rw [← hdifficulty, hraw, Option.toList_some]
      · rintro ⟨hgiven, hvisible, hunbroken, ⟨raw, hraw, hnumber⟩, hfinite⟩
        exact ⟨toList_eq_singleton.1 (hfen.trans hgiven), hvisible, hunbroken, raw,
          toList_eq_singleton.1 (hdifficulty.trans hraw),
          readDifficulty_eq_ok.2 ⟨hnumber, hfinite⟩⟩
    rw [← hvalid]
    rcases hv : p.validate with e | ⟨fen', d'⟩ <;> simp [hv]

/-! ## Queries that are rejected -/

/-- What can be wrong with a query. -/
inductive Rejected (query : List Char) : Prop
  | repeatedFen : 2 ≤ (values "fen" query).length → Rejected query
  | repeatedDifficulty : 2 ≤ (values "difficulty" query).length → Rejected query
  | missingFen : values "fen" query = [] → Rejected query
  | blankFen {fen : String} : values "fen" query = [fen] →
    (∀ c ∈ fen.toList, isBlank c = true) → Rejected query
  | brokenFen {fen : String} : values "fen" query = [fen] →
    '\n' ∈ fen.toList ∨ '\r' ∈ fen.toList → Rejected query
  | missingDifficulty : values "difficulty" query = [] → Rejected query
  | notANumber {raw : String} : values "difficulty" query = [raw] →
    Binary.read? .double (trimBlank raw.toList) = none → Rejected query
  | notFinite {raw : String} {d : Double} : values "difficulty" query = [raw] →
    Binary.read? .double (trimBlank raw.toList) = some d → d.isFinite = false → Rejected query

theorem Asks.not_rejected {query : List Char} {fen : String} {d : Double} (h : Asks query fen d) :
    ¬Rejected query := by
  obtain ⟨hgiven, ⟨c, hc, hvisible⟩, hunbroken, ⟨raw, hraw, hnumber⟩, hfinite⟩ := h
  intro hrejected
  cases hrejected with
  | repeatedFen htwice => simp [hgiven] at htwice
  | repeatedDifficulty htwice => simp [hraw] at htwice
  | missingFen hnone => cases hgiven.symm.trans hnone
  | blankFen hfen hblank =>
    cases hgiven.symm.trans hfen
    cases hvisible.symm.trans (hblank c hc)
  | brokenFen hfen hbreak =>
    cases hgiven.symm.trans hfen
    rcases hbreak with hbreak | hbreak
    · exact (hunbroken _ hbreak).1 rfl
    · exact (hunbroken _ hbreak).2 rfl
  | missingDifficulty hnone => cases hraw.symm.trans hnone
  | notANumber hraw' hno =>
    cases hraw.symm.trans hraw'
    cases hnumber.symm.trans hno
  | notFinite hraw' hnumber' hinfinite =>
    cases hraw.symm.trans hraw'
    cases hnumber.symm.trans hnumber'
    cases hfinite.symm.trans hinfinite

/-- A query without a fault gives one position, which can be seen and stands on one line. -/
theorem fen_of_not_rejected {query : List Char} (h : ¬Rejected query) :
    ∃ fen, values "fen" query = [fen] ∧ (∃ c ∈ fen.toList, isBlank c = false) ∧
      ∀ c ∈ fen.toList, c ≠ '\n' ∧ c ≠ '\r' := by
  match hfen : values "fen" query with
  | [] => exact absurd (.missingFen hfen) h
  | _ :: _ :: _ => exact absurd (.repeatedFen (by simp [hfen])) h
  | [fen] =>
    refine ⟨fen, rfl, ?_, fun c hc => ⟨?_, ?_⟩⟩
    · by_contra hno
      exact h (.blankFen hfen (by simpa using hno))
    · rintro rfl
      exact h (.brokenFen hfen (Or.inl hc))
    · rintro rfl
      exact h (.brokenFen hfen (Or.inr hc))

theorem difficulty_of_not_rejected {query : List Char} (h : ¬Rejected query) :
    ∃ raw d, values "difficulty" query = [raw] ∧
      Binary.read? .double (trimBlank raw.toList) = some d ∧ d.isFinite = true := by
  match hraw : values "difficulty" query with
  | [] => exact absurd (.missingDifficulty hraw) h
  | _ :: _ :: _ => exact absurd (.repeatedDifficulty (by simp [hraw])) h
  | [raw] =>
    cases hread : Binary.read? .double (trimBlank raw.toList) with
    | none => exact absurd (.notANumber hraw hread) h
    | some d =>
      refine ⟨raw, d, rfl, hread, ?_⟩
      by_contra hinfinite
      exact h (.notFinite hraw hread (by simpa using hinfinite))

/-- A query either asks for a move or has a fault. -/
theorem exists_asks_iff {query : List Char} : (∃ fen d, Asks query fen d) ↔ ¬Rejected query := by
  constructor
  · rintro ⟨fen, d, h⟩
    exact h.not_rejected
  · intro h
    obtain ⟨fen, hgiven, hvisible, hunbroken⟩ := fen_of_not_rejected h
    obtain ⟨raw, d, hraw, hnumber, hfinite⟩ := difficulty_of_not_rejected h
    exact ⟨fen, d, hgiven, hvisible, hunbroken, ⟨raw, hraw, hnumber⟩, hfinite⟩

theorem status_of_reply {query : List Char} {r : HttpResponse}
    (h : routeQuery query = .reply r) : r.status = 400 := by
  unfold routeQuery at h
  split at h
  · cases h
    rfl
  · split at h <;> cases h
    rfl

/-- Exactly the queries with a fault are answered at once. -/
theorem routeQuery_eq_reply_iff {query : List Char} :
    (∃ r, routeQuery query = .reply r) ↔ Rejected query := by
  rw [← not_iff_not, ← exists_asks_iff]
  simp only [← routeQuery_eq_move]
  cases routeQuery query <;> simp

end Http

end Sparring
