import Sparring.Text.CharacterTables

/-!
# Quoted text

How a text or a single character is shown inside a message: between quotes, with every
character that could be mistaken or overlooked written as an escape.
-/

namespace Sparring

/-- The lower-case hexadecimal digits of a number, without padding. -/
def hexDigits (n : Nat) : List Char := Nat.toDigits 16 n

/-- One character between quotes of the given kind. Marks and characters without a picture of
their own become a `u` escape with their number in hexadecimal, in braces. -/
def escapeChar (quote c : Char) : List Char :=
  match c with
  | '\x00' => ['\\', '0']
  | '\t' => ['\\', 't']
  | '\r' => ['\\', 'r']
  | '\n' => ['\\', 'n']
  | '\\' => ['\\', '\\']
  | c =>
    if c = quote then ['\\', c]
    else if CharacterTables.member CharacterTables.extendingSwitches c ∨
        CharacterTables.member CharacterTables.unprintableSwitches c then
      ['\\', 'u', '\x7b'] ++ hexDigits c.toNat ++ ['\x7d']
    else [c]

/-- A text between double quotes. -/
def quoteText (s : String) : String :=
  String.ofList ('"' :: s.toList.flatMap (escapeChar '"') ++ ['"'])

/-- A character between single quotes. -/
def quoteChar (c : Char) : String :=
  String.ofList ('\'' :: escapeChar '\'' c ++ ['\''])

end Sparring
