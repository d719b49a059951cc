/-!
# The text of a TOML document

What is read letter by letter: blanks, comments, line ends, strings and keys. A reader takes what
it reads off the front of the text and fails where the text does not fit; which rule was broken is
not told, since a document with any fault is refused as a whole.

A string of one line ends at its quote. A string of several lines ends at three quotes in a row,
of up to five where the first two are still its own; a line end right after the opening quotes
does not count, and the line ends within are all read as a line feed. In the quotes that allow it,
a backslash names a character, and in front of a line end it swallows all blanks and line ends.
-/

namespace Sparring.Toml

/-- A reader: what it reads off a text, and the rest of the text. -/
abbrev Reader := StateT (List Char) Option

/-! ## Characters -/

/-- A blank within a line. -/
def isSpace (c : Char) : Bool := c = ' ' ∨ c = '\t'

/-- A character that may stand in a comment or a string: a tab, or no control character of
ASCII. -/
def isTextChar (c : Char) : Bool := c = '\t' ∨ (' ' ≤ c ∧ c ≠ '\x7f')

/-- A character of a key without quotes. -/
def isKeyChar (c : Char) : Bool := c.isAlphanum || c = '_' || c = '-'

/-- A hexadecimal digit. -/
def isHexDigit (c : Char) : Bool :=
  c.isDigit || ('a' ≤ c && c ≤ 'f') || ('A' ≤ c && c ≤ 'F')

/-- The value of a digit, of ten and more for letters. -/
def digitOf (c : Char) : Nat :=
  if c.isDigit then c.toNat - '0'.toNat else c.toLower.toNat - 'a'.toNat + 10

/-- The number that a row of digits stands for. -/
def numberOf (radix : Nat) (digits : List Char) : Nat :=
  digits.foldl (fun n c => radix * n + digitOf c) 0

/-! ## Small readers -/

/-- The longest row of characters in front that satisfy a condition. -/
def takeWhile (p : Char → Bool) : Reader (List Char) := do
  let text ← get
  set (text.dropWhile p)
  return text.takeWhile p

/-- Blanks, if any. -/
def blanks : Reader Unit := do let _ ← takeWhile isSpace

/-- The given text. -/
def exactly (expected : String) : Reader Unit := do
  let text ← get
  if expected.toList.isPrefixOf text then set (text.drop expected.length) else failure

/-- The next character, if it satisfies a condition. -/
def satisfying (p : Char → Bool) : Reader Char := do
  match ← get with
  | c :: rest => if p c then set rest; return c else failure
  | [] => failure

/-- Whether the given text comes next; it is read if so. -/
def accept (expected : String) : Reader Bool := (do exactly expected; return true) <|> return false

/-- The text after a line end, if it starts with one. -/
def afterLineEnd? : List Char → Option (List Char)
  | '\n' :: rest => some rest
  | '\r' :: '\n' :: rest => some rest
  | _ => none

/-- The end of a line, which the end of the text is as well. -/
def lineEnd : Reader Unit := do
  match ← get with
  | [] => return
  | text => set (← (afterLineEnd? text : Option (List Char)))

/-- What may stand behind a statement: blanks, a comment, and the end of the line. -/
def restOfLine : Reader Unit := do
  blanks
  if ← accept "#" then let _ ← takeWhile isTextChar
  lineEnd

/-- The text without the blanks, line ends and comments that it starts with. -/
def skipFiller (inComment : Bool) : List Char → List Char
  | [] => []
  | '\r' :: '\n' :: rest => skipFiller false rest
  | c :: rest =>
    if c = '\n' then skipFiller false rest
    else if inComment ∧ isTextChar c then skipFiller true rest
    else if isSpace c then skipFiller false rest
    else if c = '#' then skipFiller true rest
    else c :: rest

/-- Blanks, line ends and comments, if any. -/
def filler : Reader Unit := modify (skipFiller false)

/-! ## Strings -/

/-- A part of a string. -/
inductive Piece where
  | text (cs : List Char)
  /-- The last part, with the closing quotes behind it. -/
  | last (cs : List Char)

/-- Reads parts up to the last one, at most as many as the fuel says. -/
def pieces (piece : Reader Piece) : (fuel : Nat) → Reader (List Char)
  | 0 => failure
  | fuel + 1 => do
    match ← piece with
    | .last cs => return cs
    | .text cs => return cs ++ (← pieces piece fuel)

/-- A whole string. Every part but the last takes a character at least. -/
def wholeString (piece : Reader Piece) : Reader String := do
  return String.ofList (← pieces piece ((← get).length + 1))

/-- The character of a code point that is written with the given number of digits. -/
def codePoint (digits : Nat) : Reader Char := do
  let text ← get
  let written := text.take digits
  let n := numberOf 16 written
  if written.length = digits ∧ written.all isHexDigit ∧ n.isValidChar then
    set (text.drop digits)
    return Char.ofNat n
  else failure

/-- The character that stands behind a backslash. -/
def escaped : Reader Char := do
  match ← satisfying fun _ => true with
  | 'b' => return '\x08'
  | 't' => return '\t'
  | 'n' => return '\n'
  | 'f' => return '\x0c'
  | 'r' => return '\r'
  | '"' => return '"'
  | '\\' => return '\\'
  | 'u' => codePoint 4
  | 'U' => codePoint 8
  | _ => failure

/-- The two kinds of quotes: those in which a backslash names a character, and those in which it
stands for itself. -/
inductive Quotes where
  | double
  | single
deriving DecidableEq

/-- The sign of a kind of quotes. -/
def Quotes.sign : Quotes → Char
  | double => '"'
  | single => '\''

/-- Three quotes in a row. -/
def Quotes.triple (q : Quotes) : String := String.ofList (List.replicate 3 q.sign)

/-- A character that stands for itself. -/
def plainPiece : Reader Piece := do return .text [← satisfying isTextChar]

/-- A part of a string of one line. -/
def linePiece (q : Quotes) : Reader Piece := do
  match ← get with
  | [] => failure
  | c :: rest =>
    if c = q.sign then set rest; return .last []
    else if c = '\\' ∧ q = .double then set rest; return .text [← escaped]
    else plainPiece

/-- A part of a string of several lines that starts with quotes. -/
def quotesPiece (q : Quotes) : Reader Piece := do
  let text ← get
  let count := (text.takeWhile (· = q.sign)).length
  if count < 3 then
    set (text.drop count)
    return .text (List.replicate count q.sign)
  else
    let own := min (count - 3) 2
    set (text.drop (own + 3))
    return .last (List.replicate own q.sign)

/-- The text without the blanks and line ends that it starts with. -/
def skipLineEnds : List Char → List Char
  | [] => []
  | '\r' :: '\n' :: rest => skipLineEnds rest
  | c :: rest => if isSpace c ∨ c = '\n' then skipLineEnds rest else c :: rest

/-- A part of a string of several lines that starts with a backslash. -/
def backslashPiece : Reader Piece := do
  let text ← get
  match afterLineEnd? (text.dropWhile isSpace) with
  | some rest =>
    set (skipLineEnds rest)
    return .text []
  | none => return .text [← escaped]

/-- A part of a string of several lines. -/
def linesPiece (q : Quotes) : Reader Piece := do
  match ← get with
  | [] => failure
  | c :: rest =>
    if c = q.sign then quotesPiece q
    else if c = '\\' ∧ q = .double then set rest; backslashPiece
    else
      match afterLineEnd? (c :: rest) with
      | some rest => set rest; return .text ['\n']
      | none => plainPiece

/-- A string of one line. -/
def lineString (q : Quotes) : Reader String := do
  exactly (String.singleton q.sign)
  wholeString (linePiece q)

/-- A string of several lines. -/
def linesString (q : Quotes) : Reader String := do
  exactly q.triple
  modify fun text => (afterLineEnd? text).getD text
  wholeString (linesPiece q)

/-- A string. -/
def string (q : Quotes) : Reader String := do
  if q.triple.toList.isPrefixOf (← get) then linesString q else lineString q

/-! ## Keys -/

/-- A key of one part. -/
def simpleKey : Reader String := do
  match ← get with
  | '"' :: _ => lineString .double
  | '\'' :: _ => lineString .single
  | _ =>
    let cs ← takeWhile isKeyChar
    if cs.isEmpty then failure else return String.ofList cs

/-- A key of the given number of parts at most, with blanks around them. -/
def keyParts : (limit : Nat) → Reader (List String × String)
  | 0 => failure
  | limit + 1 => do
    blanks
    let key ← simpleKey
    blanks
    if ← accept "." then
      let (path, last) ← keyParts limit
      return (key :: path, last)
    else return ([], key)

/-- How many tables a value may lie within, and how many parts a key may have. -/
def depthLimit : Nat := 79

/-- A key: the tables that it leads through, and its last part. -/
def key : Reader (List String × String) := keyParts depthLimit

end Sparring.Toml
