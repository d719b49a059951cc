import Sparring.Number.Decimal
import Sparring.Toml.Text
import Sparring.Toml.Value

/-!
# TOML values without parts

Numbers, dates and times, and the two truth values. A whole number has 64 bits with a sign, and
has no leading zeros unless its radix is named; digits may be set apart by single underscores. A
floating-point number has a fraction, an exponent or both, or is one of the words for infinity
and NaN, and one that overflows above is refused. Dates follow the calendar with leap years, and a
minute may have a sixty-first second.
-/

namespace Sparring.Toml

/-! ## Numbers -/

/-- The digits that follow a first one, and the rest of the text. An underscore must have a digit
on both sides. -/
def moreDigits (isDigit : Char → Bool) : List Char → List Char × List Char
  | [] => ([], [])
  | '_' :: c :: rest =>
    if isDigit c then
      let (digits, rest) := moreDigits isDigit rest
      (c :: digits, rest)
    else ([], '_' :: c :: rest)
  | c :: rest =>
    if isDigit c then
      let (digits, rest) := moreDigits isDigit rest
      (c :: digits, rest)
    else ([], c :: rest)

/-- One digit or more. -/
def digits (isDigit : Char → Bool) : Reader (List Char) := do
  let first ← satisfying isDigit
  let (more, rest) := moreDigits isDigit (← get)
  set rest
  return first :: more

/-- A sign, if any; `true` is a minus. -/
def sign : Reader Bool := do
  let (negative, rest) := splitSign (← get)
  set rest
  return negative

/-- Digits without a leading zero. -/
def wholeDigits : Reader (List Char) := do
  if ← accept "0" then return ['0'] else digits Char.isDigit

/-- A whole number, if it is in range. -/
def inRange (n : Int) : Reader Value :=
  if Int64.minValue.toInt ≤ n ∧ n ≤ Int64.maxValue.toInt then return .int (.ofInt n) else failure

/-- A whole number behind the mark of its radix. -/
def marked (mark : String) (radix : Nat) : Reader Value := do
  exactly mark
  inRange (numberOf radix (← digits fun c => isHexDigit c && digitOf c < radix))

/-- A whole number. -/
def integer : Reader Value :=
  marked "0x" 16 <|> marked "0o" 8 <|> marked "0b" 2 <|> do
    let negative ← sign
    let n : Int := numberOf 10 (← wholeDigits)
    inRange (if negative then -n else n)

/-- A fraction with its point. -/
def fraction : Reader (List Char) := do
  exactly "."
  digits Char.isDigit

/-- An exponent with its mark. -/
def exponent : Reader Int := do
  let _ ← satisfying fun c => c = 'e' || c = 'E'
  let negative ← sign
  let n : Int := numberOf 10 (← digits Char.isDigit)
  return if negative then -n else n

/-- A floating-point number in digits. -/
def floatDigits : Reader Value := do
  let negative ← sign
  let whole ← wholeDigits
  let (part, e) ←
    (do
      let part ← fraction
      let e ← exponent <|> return 0
      return (part, e)) <|>
    (do return ([], ← exponent))
  let d : Decimal := ⟨negative, natOfDigits (whole ++ part), e - part.length⟩
  let x := d.toBinary .double
  if x = .infinity false then failure else return .float x

/-- Infinity or NaN. -/
def floatWord : Reader Value := do
  let negative ← sign
  if ← accept "inf" then return .float (.infinity negative)
  else
    exactly "nan"
    return .float .nan

/-- A floating-point number. -/
def float : Reader Value := floatDigits <|> floatWord

/-! ## Dates and times -/

/-- A number of so many digits, within bounds. -/
def field (width low high : Nat) : Reader Nat := do
  let text ← get
  let written := text.take width
  let n := natOfDigits written
  if written.length = width ∧ written.all Char.isDigit ∧ low ≤ n ∧ n ≤ high then
    set (text.drop width)
    return n
  else failure

/-- The days of a month. -/
def daysOfMonth (year month : Nat) : Nat :=
  if month = 2 then
    if year % 4 = 0 ∧ (year % 100 ≠ 0 ∨ year % 400 = 0) then 29 else 28
  else if month ∈ [4, 6, 9, 11] then 30
  else 31

/-- A date. -/
def date : Reader Unit := do
  let year ← field 4 0 9999
  exactly "-"
  let month ← field 2 1 12
  exactly "-"
  let _ ← field 2 1 (daysOfMonth year month)

/-- A time of day, to the second or finer. -/
def time : Reader Unit := do
  let _ ← field 2 0 23
  exactly ":"
  let _ ← field 2 0 59
  exactly ":"
  let _ ← field 2 0 60
  if ← accept "." then
    let _ ← satisfying Char.isDigit
    let _ ← takeWhile Char.isDigit

/-- The distance of a local time from the common one. -/
def offset : Reader Unit := do
  match ← satisfying fun _ => true with
  | 'Z' | 'z' => return
  | '+' | '-' =>
    let _ ← field 2 0 23
    exactly ":"
    let _ ← field 2 0 59
  | _ => failure

/-- The time behind a date. -/
def timeOfDate : Reader Unit := do
  let _ ← satisfying fun c => c = 'T' || c = 't' || c = ' '
  time
  offset <|> return

/-- A date, a time or both. -/
def datetime : Reader Value := do
  (do date; timeOfDate <|> return) <|> time
  return .datetime

/-! ## All together -/

/-- A truth value. -/
def bool : Reader Value := do
  if ← accept "true" then return .bool true
  else
    exactly "false"
    return .bool false

/-- A value without parts. -/
def scalar : Reader Value := do
  match ← get with
  | '"' :: _ => return .str (← string .double)
  | '\'' :: _ => return .str (← string .single)
  | _ => bool <|> datetime <|> float <|> integer

end Sparring.Toml
