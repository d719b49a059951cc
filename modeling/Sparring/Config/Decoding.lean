import Sparring.Config
import Sparring.Number.Rounding
import Sparring.Toml.Document

/-!
# Reading a configuration

From a TOML document to a configuration. A record is read field by field in the order of the
document, so that of several faults the first one counts; a key that nothing knows is passed over,
and a field that is not there keeps its stock value. The engine's record may also be an array with
the values of its first fields. Of a bucket the threshold is read before anything else, and the
fields that it must have are missed only when all that are there have been read. The table's own
rules are looked at last.
-/

namespace Sparring

/-- Why a document is no configuration. -/
inductive DecodeError where
  | notToml
  /-- A value has the wrong type, or is out of range. -/
  | wrongValue
  | missingField (key : String)
  | unknownPolicy (name : String)
  | badTable (e : TableError)
deriving DecidableEq

/-- What is wrong, where there are words for it. -/
def DecodeError.detail? : DecodeError → Option String
  | notToml => none
  | wrongValue => none
  | missingField key => some ("missing field `" ++ key ++ "`")
  | unknownPolicy name =>
    some ("unknown variant `" ++ name ++ "`, expected `respond` or `abort`")
  | badTable e => some e.message

/-- What comes of reading something. -/
abbrev Decoded := Except DecodeError

namespace Toml.Value

/-! ## Plain values -/

/-- A text. -/
def decodeString : Value → Decoded String
  | str s => .ok s
  | _ => .error .wrongValue

/-- A switch. -/
def decodeBool : Value → Decoded Bool
  | bool b => .ok b
  | _ => .error .wrongValue

/-- A whole number from zero on, below a bound. -/
def decodeNat (bound : Nat) : Value → Decoded Nat
  | int n => if 0 ≤ n.toInt ∧ n.toInt < bound then .ok n.toInt.toNat else .error .wrongValue
  | _ => .error .wrongValue

/-- A whole number of 32 bits. -/
def decodeUInt32 (v : Value) : Decoded UInt32 := UInt32.ofNat <$> v.decodeNat UInt32.size

/-- A whole number of 64 bits. -/
def decodeUInt64 (v : Value) : Decoded UInt64 := UInt64.ofNat <$> v.decodeNat UInt64.size

/-- A number, rounded to a format. A whole number is rounded once, another one has been rounded
to a double before. -/
def decodeBinary (f : BinaryFormat) : Value → Decoded (Binary f)
  | float x => .ok (x.convert f)
  | int n => .ok (.ofInt f n.toInt)
  | _ => .error .wrongValue

/-- Several values of one kind. -/
def decodeList {α : Type} (decode : Value → Decoded α) : Value → Decoded (List α)
  | array items => items.mapM decode
  | _ => .error .wrongValue

end Toml.Value

open Toml

/-! ## Records -/

/-- A field of a record: its key, and how its value is taken up. -/
structure Field (α : Type) where
  key : String
  take : α → Value → Decoded α

namespace Field

variable {α β : Type}

/-- The field of a value that is read and then put into the record. -/
def of (key : String) (decode : Value → Decoded β) (put : β → α → α) : Field α where
  key := key
  take a v := do return put (← decode v) a

/-- Takes up the value of one key. -/
def takeEntry (fields : List (Field α)) (a : α) (entry : String × Value) : Decoded α :=
  match fields.find? (·.key = entry.1) with
  | some f => f.take a entry.2
  | none => .ok a

/-- Takes up the entries of a table. -/
def takeEntries (fields : List (Field α)) (a : α) (entries : Entries) : Decoded α :=
  entries.foldlM (takeEntry fields) a

/-- Takes up values in the order of the fields. More values than fields do not count. -/
def takeItems (a : α) : List (Field α) → List Value → Decoded α
  | f :: fields, v :: items => do takeItems (← f.take a v) fields items
  | _, _ => .ok a

end Field

/-- The entries of a table. A date counts as a table without any known key. -/
def Toml.Value.entries? : Value → Option Entries
  | .table entries => some entries
  | .datetime => some []
  | _ => none

/-! ## Policies -/

namespace FailurePolicy

/-- The policy of a name. -/
def ofName (name : String) : Decoded FailurePolicy :=
  if name = "respond" then .ok .respond
  else if name = "abort" then .ok .abort
  else .error (.unknownPolicy name)

/-- Nothing at all, as the content of a policy. -/
def isNothing : Value → Bool
  | .array items => items.isEmpty
  | .table entries => entries.isEmpty
  | _ => false

/-- Reads a policy: its name, or a table with its name as the only key and nothing behind it. -/
def decode : Value → Decoded FailurePolicy
  | .str name => ofName name
  | .table [(name, content)] => do
    let policy ← ofName name
    if isNothing content then return policy else throw .wrongValue
  | _ => .error .wrongValue

end FailurePolicy

/-! ## Engine settings -/

namespace EngineSettings

/-- The fields of the settings, in the order that an array has them. -/
def fields : List (Field EngineSettings) :=
  [.of "program" Value.decodeString fun program s => { s with program },
    .of "args" (Value.decodeList Value.decodeString) fun args s => { s with args },
    .of "weights_dir" Value.decodeString fun dir s => { s with weightsDir := some dir },
    .of "cache_size" Value.decodeUInt32 fun cacheSize s => { s with cacheSize }]

/-- Reads settings. -/
def decode : Value → Decoded EngineSettings
  | .array items => Field.takeItems stock fields items
  | v =>
    match v.entries? with
    | some entries => Field.takeEntries fields stock entries
    | none => .error .wrongValue

end EngineSettings

/-! ## Buckets -/

/-- A profile of which not all may be known yet. -/
structure ProfileDraft where
  timeBudget : Option UInt64
  nodeBudget : UInt64
  depthBudget : UInt32
  temperature : Option Single
  model : Option String

namespace ProfileDraft

/-- A profile of which nothing is known; the two budgets that may be left out are unlimited. -/
def blank : ProfileDraft := ⟨none, 0, 0, none, none⟩

/-- The fields of a profile. -/
def fields : List (Field ProfileDraft) :=
  [.of "time_budget_ms" Value.decodeUInt64 fun time p => { p with timeBudget := some time },
    .of "node_budget" Value.decodeUInt64 fun nodeBudget p => { p with nodeBudget },
    .of "depth_budget" Value.decodeUInt32 fun depthBudget p => { p with depthBudget },
    .of "temperature" (Value.decodeBinary .single) fun temperature p =>
      { p with temperature := some temperature },
    .of "model_id" Value.decodeString fun model p => { p with model := some model }]

/-- The profile, if all that it must have is there. -/
def finish (p : ProfileDraft) : Decoded Profile :=
  match p.timeBudget, p.temperature, p.model with
  | none, _, _ => .error (.missingField "time_budget_ms")
  | some _, none, _ => .error (.missingField "temperature")
  | some _, some _, none => .error (.missingField "model_id")
  | some timeBudget, some temperature, some model =>
    .ok { timeBudget, nodeBudget := p.nodeBudget, depthBudget := p.depthBudget, temperature, model }

end ProfileDraft

namespace Bucket

/-- Reads the threshold of a bucket. -/
def decodeThreshold (entries : Entries) : Decoded Double :=
  match entries.lookup "max_difficulty" with
  | some v => v.decodeBinary .double
  | none => .error (.missingField "max_difficulty")

/-- Reads a bucket. -/
def decode (v : Value) : Decoded Bucket :=
  match v.entries? with
  | some entries => do
    let threshold ← decodeThreshold entries
    let profile ← Field.takeEntries ProfileDraft.fields .blank entries
    return ⟨threshold, ← profile.finish⟩
  | none => .error .wrongValue

end Bucket

/-- Reads a table of buckets. -/
def Table.decode (v : Value) : Decoded Table := do
  let rows ← v.decodeList Bucket.decode
  match Table.ofRows rows with
  | .ok table => return table
  | .error e => throw (.badTable e)

/-! ## Configurations -/

namespace Config

/-- The fields of a configuration. -/
def fields : List (Field Config) :=
  [.of "bind" Value.decodeString fun address c => { c with address },
    .of "failure_policy" FailurePolicy.decode fun policy c => { c with policy },
    .of "preload" Value.decodeBool fun preload c => { c with preload },
    .of "engine" EngineSettings.decode fun engine c => { c with engine },
    .of "buckets" Table.decode fun table c => { c with table }]

/-- Reads a configuration from the top table of a document. -/
def decode (entries : Entries) : Decoded Config := Field.takeEntries fields stock entries

/-- Reads a configuration from the text of a document. -/
def read (text : String) : Decoded Config :=
  match Document.read? text with
  | some entries => decode entries
  | none => .error .notToml

end Config

end Sparring
