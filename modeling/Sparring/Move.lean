import Sparring.Text.Quoted
import Sparring.Text.Json

/-!
# Moves

A move names the square a piece leaves, the square it goes to and, for a promoting pawn, the
new piece. Its text is the two squares one after the other and the letter of the new piece, as
in `e2e4` and `a7a8q`. Reading takes the letter in either case; writing gives the lower case.
-/

namespace Sparring

/-- Why a text is not a move. -/
inductive MoveError where
  /-- A text that is not a file letter and a rank digit. -/
  | square (text : String)
  /-- A character that names no piece a pawn can become. -/
  | promotion (letter : Char)
  /-- A text that has not the length of a move, or is not ASCII. -/
  | move (text : String)
deriving DecidableEq, Repr

/-- The wording of an error. -/
def MoveError.message : MoveError → String
  | square text => "invalid square: " ++ quoteText text
  | promotion letter => "invalid promotion piece: " ++ quoteChar letter
  | move text => "invalid move: " ++ quoteText text

/-! ## Squares -/

/-- A square of the board, file and rank counted from zero. -/
structure Square where
  file : Fin 8
  rank : Fin 8
deriving DecidableEq, Repr

namespace Square

/-- The square with the given coordinates, if they are on the board. -/
def new? (file rank : Nat) : Option Square :=
  if h : file < 8 ∧ rank < 8 then some ⟨⟨file, h.1⟩, ⟨rank, h.2⟩⟩ else none

/-- The letter of a file. -/
def fileLetter (file : Fin 8) : Char := Char.ofNat ('a'.toNat + file)

/-- The digit of a rank. -/
def rankDigit (rank : Fin 8) : Char := Char.ofNat ('1'.toNat + rank)

/-- The text of a square, as in `e4`. -/
def chars (s : Square) : List Char := [fileLetter s.file, rankDigit s.rank]

/-- The text of a square, as in `e4`. -/
def text (s : Square) : String := String.ofList s.chars

/-- Reads a file letter from `a` to `h` and a rank digit from `1` to `8`. -/
def ofChars? : List Char → Option Square
  | [file, rank] =>
    if 'a' ≤ file ∧ '1' ≤ rank then
      new? (file.toNat - 'a'.toNat) (rank.toNat - '1'.toNat)
    else none
  | _ => none

/-- Reads a square. -/
def read (cs : List Char) : Except MoveError Square :=
  match ofChars? cs with
  | some s => .ok s
  | none => .error (.square (String.ofList cs))

/-- A square in an answer. -/
def toJson (s : Square) : Json := .str s.text

end Square

/-! ## Promotions -/

/-- A piece a pawn can become. -/
inductive Promotion where
  | bishop | knight | queen | rook
deriving DecidableEq, Repr

namespace Promotion

/-- The letter of a piece. -/
def letter : Promotion → Char
  | bishop => 'b'
  | knight => 'n'
  | queen => 'q'
  | rook => 'r'

/-- The piece of a letter in either case. -/
def read (c : Char) : Except MoveError Promotion :=
  match c.toLower with
  | 'b' => .ok bishop
  | 'n' => .ok knight
  | 'q' => .ok queen
  | 'r' => .ok rook
  | _ => .error (.promotion c)

/-- A piece in an answer. -/
def toJson (p : Promotion) : Json := .str (String.singleton p.letter)

end Promotion

/-! ## Moves -/

/-- A move. -/
structure Move where
  source : Square
  target : Square
  promotion : Option Promotion
deriving DecidableEq, Repr

namespace Move

/-- The text of a move, as in `a7a8q`. -/
def chars (m : Move) : List Char :=
  m.source.chars ++ m.target.chars ++ (m.promotion.map Promotion.letter).toList

/-- The text of a move, as in `a7a8q`. -/
def text (m : Move) : String := String.ofList m.chars

/-- Reads the letter after the two squares, if there is one. -/
def readPromotion : List Char → Except MoveError (Option Promotion)
  | [] => .ok none
  | c :: _ => (Promotion.read c).map some

/-- Reads a move of four or five ASCII characters. The first part at fault is reported. -/
def readChars (cs : List Char) : Except MoveError Move :=
  if cs.all (·.toNat < 128) ∧ (cs.length = 4 ∨ cs.length = 5) then do
    let source ← Square.read (cs.take 2)
    let target ← Square.read ((cs.drop 2).take 2)
    let promotion ← readPromotion (cs.drop 4)
    return ⟨source, target, promotion⟩
  else .error (.move (String.ofList cs))

/-- Reads a move. -/
def read (s : String) : Except MoveError Move := readChars s.toList

/-- A move in an answer; the piece is left out where there is none. -/
def toJson (m : Move) : Json :=
  .obj ([("from", m.source.toJson), ("to", m.target.toJson)] ++
    (m.promotion.map fun p => ("promotion", p.toJson)).toList)

/-- The body of a successful answer. -/
def response (m : Move) : Json := .obj [("result", m.toJson)]

end Move

end Sparring
