import Sparring.Toml.Draft
import Sparring.Toml.Scalar

/-!
# TOML documents

A document is a row of statements, one a line: headers that open a table or a new element in an
array of tables, and settings that give a key a value in the table opened last. Arrays may run over
several lines and end with a comma, inline tables may do neither. `Document.read?` reads a whole
document into the entries of its top table, in the order in which they stand there.
-/

namespace Sparring.Toml

/-! ## Arrays and inline tables -/

/-- The elements of an array up to its end, at most as many as the fuel says. -/
def elements (element : Reader Value) : (fuel : Nat) → Reader (List Value)
  | 0 => failure
  | fuel + 1 => do
    filler
    if ← accept "]" then return []
    else
      let v ← element
      filler
      if ← accept "," then return v :: (← elements element fuel)
      else
        exactly "]"
        return [v]

/-- An array. -/
def array (element : Reader Value) : Reader Value := do
  exactly "["
  return .array (← elements element ((← get).length + 1))

/-- A key and its value within a line. -/
def setting (value : Reader Value) : Reader ((List String × String) × Value) := do
  let k ← key
  exactly "="
  blanks
  return (k, ← value)

/-- The settings of an inline table up to its end, at most as many as the fuel says. -/
def settings (value : Reader Value) :
    (fuel : Nat) → Reader (List ((List String × String) × Value))
  | 0 => failure
  | fuel + 1 => do
    let s ← setting value
    blanks
    if ← accept "," then return s :: (← settings value fuel)
    else
      exactly "\x7d"
      return [s]

/-- An inline table. -/
def inlineTable (value : Reader Value) : Reader Value := do
  exactly "\x7b"
  blanks
  if ← accept "\x7d" then return .table []
  else
    let all ← settings value ((← get).length + 1)
    let assignAll : Option Draft :=
      all.foldlM (fun d ((path, last), v) => Draft.assign last v path d) []
    return .table (Draft.toEntries (← assignAll))

/-- A value that may have parts in so many layers. -/
def value : (layers : Nat) → Reader Value
  | 0 => scalar
  | layers + 1 => array (value layers) <|> inlineTable (value layers) <|> scalar

/-! ## Statements -/

/-- A statement of a document. -/
inductive Statement where
  /-- `[path.last]` -/
  | table (path : List String) (last : String)
  /-- `[[path.last]]` -/
  | element (path : List String) (last : String)
  /-- `path.last = value` -/
  | setting (path : List String) (last : String) (v : Value)

/-- A header. -/
def header : Reader Statement := do
  if ← accept "[[" then
    let (path, last) ← key
    exactly "]]"
    return .element path last
  else
    exactly "["
    let (path, last) ← key
    exactly "]"
    return .table path last

/-- A statement. -/
def statement : Reader Statement := do
  match ← get with
  | '[' :: _ => header
  | _ =>
    let ((path, last), v) ← setting (value depthLimit)
    return .setting path last v

/-- The statements up to the end of the text, at most as many lines as the fuel says. -/
def statements : (fuel : Nat) → Reader (List Statement)
  | 0 => failure
  | fuel + 1 => do
    blanks
    match ← get with
    | [] => return []
    | '#' :: _ | '\n' :: _ | '\r' :: _ =>
      restOfLine
      statements fuel
    | _ =>
      let s ← statement
      restOfLine
      return s :: (← statements fuel)

/-! ## Documents -/

/-- A document under construction: its top table, and the header opened last. -/
structure Document where
  top : Draft
  current : List String

namespace Document

/-- Takes a statement into a document. -/
def add (d : Document) : Statement → Option Document
  | .table path last => do
    return ⟨← d.top.within (Draft.openTable last) path, path ++ [last]⟩
  | .element path last => do
    return ⟨← d.top.within (Draft.openElement last) path, path ++ [last]⟩
  | .setting path last v => do
    return { d with top := ← d.top.within (Draft.assign last v path) d.current }

/-- The entries of the top table of a document, if the text is one. A byte order mark in front of
it does not count. -/
def read? (text : String) : Option Entries := do
  let cs := text.toList
  let cs := if cs.head? = some '\ufeff' then cs.tail else cs
  let (all, _) ← statements (cs.length + 1) cs
  let d ← all.foldlM add ⟨[], []⟩
  return Draft.toEntries d.top

end Document

end Sparring.Toml
