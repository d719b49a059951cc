import Sparring.Text.Utf8
import Sparring.Uci.Line

/-!
# An engine process and its reader

An *instance* is one engine process as the service sees it: what has been written to it, what it
has printed that nobody has read, whether the two pipes are open, the search that its next
`bestmove` answers, and the acknowledgements that have been read and not yet taken.

The *reader* of an instance works beside the requests. It takes the output a line at a time; a
`bestmove` line takes the current search away and becomes a completion, which is delivered in a
step of its own. When the output ends, or is not UTF-8, the reader looks once more for a current
search, reports that the engine has exited, and ends.
-/

namespace Sparring.Uci

/-- Where the reader of an instance stands. -/
inductive Reader where
  | reading
  /-- It has a completion to deliver. -/
  | delivering (c : Completion)
  /-- The output is over and the current search has not been looked at. -/
  | closing
  /-- It has the exit of the engine to report, and then ends. -/
  | reporting (c : Completion)
  | ended
deriving DecidableEq, Repr

/-- An engine process. -/
structure Instance where
  model : String
  /-- The search the next `bestmove` answers. -/
  current : Option SearchId
  /-- Acknowledgements that have been read and not taken. -/
  acks : List Ack
  /-- Bytes that the engine has printed and the reader has not taken. -/
  output : List UInt8
  outputOpen : Bool
  inputOpen : Bool
  /-- What has been written to the engine, write by write. -/
  written : List String
  reader : Reader
deriving Repr

namespace Instance

/-- A process that has just been launched for a model. -/
def new (model : String) : Instance := ⟨model, none, [], [], true, true, [], .reading⟩

/-- What the reader finds in the output. -/
inductive Found where
  /-- A line, and the bytes after it. -/
  | line (bytes rest : List UInt8)
  /-- The output is over. -/
  | over
  /-- The line begun is not complete. -/
  | nothing

/-- The bytes of a line without its line feed and the carriage return before that. -/
def stripReturn (bytes : List UInt8) : List UInt8 :=
  if bytes.getLast? = some 13 then bytes.dropLast else bytes

/-- Looks for the next line. The last one may lack its line feed. -/
def find (i : Instance) : Found :=
  let line := i.output.takeWhile (· ≠ 10)
  match i.output.dropWhile (· ≠ 10) with
  | _ :: rest => .line (stripReturn line) rest
  | [] =>
    if i.outputOpen then .nothing
    else if line.isEmpty then .over
    else .line line []

/-- Takes a line. -/
def take (i : Instance) (line : List Char) : Instance :=
  match Reply.read line with
  | .bestMove outcome => { i with current := none, reader := .delivering ⟨i.current, outcome⟩ }
  | .ack a => { i with acks := i.acks ++ [a] }
  | .other => i

/-- The next step of the reader, with the completion it delivers. -/
def read (i : Instance) : Instance × Option Completion :=
  match i.reader with
  | .reading =>
    match i.find with
    | .nothing => (i, none)
    | .over => ({ i with reader := .closing }, none)
    | .line bytes rest =>
      match decodeUtf8? bytes with
      | some line => ({ i with output := rest }.take line, none)
      | none => ({ i with output := rest, reader := .closing }, none)
  | .delivering c => ({ i with reader := .reading }, some c)
  | .closing =>
    match i.current with
    | some search =>
      ({ i with current := none, reader := .reporting ⟨some search, .engineExited⟩ }, none)
    | none => ({ i with reader := .ended }, none)
  | .reporting c => ({ i with reader := .ended }, some c)
  | .ended => (i, none)

/-- Whether the reader has something to do. -/
def canRead (i : Instance) : Bool :=
  match i.reader with
  | .reading =>
    match i.find with
    | .nothing => false
    | _ => true
  | .ended => false
  | _ => true

/-- The engine is killed: both its pipes are closed. What it has printed can still be read. -/
def kill (i : Instance) : Instance := { i with inputOpen := false, outputOpen := false }

end Instance

end Sparring.Uci
