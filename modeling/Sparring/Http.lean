import Sparring.Http.Query
import Sparring.Number.Decimal
import Sparring.Service.Error
import Sparring.Text.Blank
import Sparring.Text.Json

/-!
# The HTTP side

One resource, `/`, answers a `GET` whose query names a position and a difficulty. What a request
says is read before the service is asked for anything, so a request that is refused never
reaches it: `route` either has the response at once, or says for which position and difficulty
a move is wanted, and `respond` turns what comes of that into the response.
-/

namespace Sparring

/-! ## Difficulties -/

/-- Reads a difficulty. Any finite number will do; blanks around it do not count. -/
def readDifficulty (raw : String) : Except RequestError Double :=
  match Binary.read? .double (trimBlank raw.toList) with
  | none => .error (.notANumber raw)
  | some d => if d.isFinite then .ok d else .error (.notFinite raw)

/-! ## Parameters -/

/-- The two parameters of a request, as far as they are given. -/
structure MoveParameters where
  fen : Option String
  difficulty : Option String

namespace MoveParameters

/-- Takes up one pair of a query. The name of a parameter that is given twice is the error;
other names do not count. -/
def add (p : MoveParameters) : String × String → Except String MoveParameters
  | (name, value) =>
    if name = "fen" then
      if p.fen.isSome then .error name else .ok { p with fen := some value }
    else if name = "difficulty" then
      if p.difficulty.isSome then .error name else .ok { p with difficulty := some value }
    else .ok p

/-- The parameters of a query. -/
def ofQuery (query : List Char) : Except String MoveParameters :=
  (Query.pairs query).foldlM add ⟨none, none⟩

/-- The position and the difficulty that the parameters name. The position is looked at first. -/
def validate (p : MoveParameters) : Except RequestError (String × Double) :=
  match p.fen with
  | none => .error .missingFen
  | some fen =>
    if (trimBlank fen.toList).isEmpty then .error .emptyFen
    else if fen.toList.any isLineBreak then .error .fenWithLineBreak
    else
      match p.difficulty with
      | none => .error .missingDifficulty
      | some raw => (readDifficulty raw).map (fen, ·)

end MoveParameters

/-! ## Requests and responses -/

/-- A request: its method and its target. -/
structure HttpRequest where
  method : String
  target : String

/-- What a response carries. -/
inductive Body where
  | empty
  | text (s : String)
  | json (j : Json)

/-- A response. -/
structure HttpResponse where
  status : Nat
  /-- The methods that are allowed, where the method was not. -/
  allow : Option String
  body : Body

/-- The type that a body is announced with. -/
def Body.contentType : Body → Option String
  | empty => none
  | text _ => some "text/plain; charset=utf-8"
  | json _ => some "application/json"

/-- The text of a body. -/
def Body.render : Body → String
  | empty => ""
  | text s => s
  | json j => j.render

namespace Http

/-- The part of a target after the scheme and the host, if it names them. -/
def afterHost (target : List Char) : List Char :=
  match target with
  | '/' :: _ => target
  | _ =>
    let scheme := target.takeWhile fun c => c ≠ ':' ∧ c ≠ '/' ∧ c ≠ '?' ∧ c ≠ '#'
    match target.drop scheme.length with
    | ':' :: '/' :: '/' :: rest => rest.dropWhile fun c => c ≠ '/' ∧ c ≠ '?' ∧ c ≠ '#'
    | _ => target

/-- The path and the query of a target. A fragment does not count. -/
def splitTarget (target : String) : List Char × List Char :=
  let rest := (afterHost target.toList).takeWhile (· ≠ '#')
  let path := rest.takeWhile (· ≠ '?')
  (if path.isEmpty then ['/'] else path, (rest.dropWhile (· ≠ '?')).drop 1)

/-- The response to a request that has come to an end. -/
def respond : Except ServiceError Move → HttpResponse
  | .ok m => ⟨200, none, .json m.response⟩
  | .error e => ⟨e.status, none, .json (.obj [("error", .str e.message)])⟩

/-- What is to be done about a request. -/
inductive Route where
  | reply (r : HttpResponse)
  /-- A move is wanted. -/
  | move (fen : String) (difficulty : Double)

/-- What is to be done about a query. -/
def routeQuery (query : List Char) : Route :=
  match MoveParameters.ofQuery query with
  | .error name =>
    .reply ⟨400, none,
      .text ("Failed to deserialize query string: duplicate field `" ++ name ++ "`")⟩
  | .ok p =>
    match p.validate with
    | .error e => .reply (respond (.error (.invalidRequest e)))
    | .ok (fen, difficulty) => .move fen difficulty

/-- What is to be done about a request. -/
def route (r : HttpRequest) : Route :=
  let (path, query) := splitTarget r.target
  if path ≠ ['/'] then .reply ⟨404, none, .empty⟩
  else if r.method = "GET" ∨ r.method = "HEAD" then routeQuery query
  else .reply ⟨405, some "GET,HEAD", .empty⟩

end Http

end Sparring
