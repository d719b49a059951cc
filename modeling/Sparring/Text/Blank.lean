/-!
# Blank space

The characters with the Unicode property White_Space, and the two readings built on them:
`trimBlank` strips them from both ends of a text and `words` cuts a text at every run of them.
-/

namespace Sparring

/-- The Unicode property White_Space. -/
def isBlank (c : Char) : Bool :=
  let n := c.toNat
  (9 ≤ n && n ≤ 13) || n == 0x20 || n == 0x85 || n == 0xA0 || n == 0x1680 ||
    (0x2000 ≤ n && n ≤ 0x200A) || n == 0x2028 || n == 0x2029 || n == 0x202F || n == 0x205F ||
    n == 0x3000

/-- The text without the blanks at its end. -/
def trimBlankEnd (cs : List Char) : List Char := (cs.reverse.dropWhile isBlank).reverse

/-- The text without the blanks at both ends. -/
def trimBlank (cs : List Char) : List Char := trimBlankEnd (cs.dropWhile isBlank)

/-- Adds a word to a list of words unless it is empty. -/
def consWord (word : List Char) (rest : List (List Char)) : List (List Char) :=
  if word.isEmpty then rest else word :: rest

/-- The words of a text, with the letters of the word begun so far, last one first. -/
def wordsFrom (begun : List Char) : List Char → List (List Char)
  | [] => consWord begun.reverse []
  | c :: rest =>
    if isBlank c then consWord begun.reverse (wordsFrom [] rest) else wordsFrom (c :: begun) rest

/-- The maximal runs of characters that are not blank, in order. -/
def words (cs : List Char) : List (List Char) := wordsFrom [] cs

/-- A line break of either kind. -/
def isLineBreak (c : Char) : Bool := c == '\n' || c == '\r'

end Sparring
