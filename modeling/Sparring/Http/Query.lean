import Sparring.Text.Utf8

/-!
# Query strings

A query string is a row of pairs `name=value` between ampersands. In both parts `+` stands for a
space and `%` with two hexadecimal digits for a byte; a percent sign without them stands for
itself, and bytes that are not UTF-8 become the replacement character. Empty parts are skipped.
-/

namespace Sparring

namespace Query

/-- The byte of a character that has one byte, and the bytes of any other. -/
def charBytes (c : Char) : List UInt8 := encodeUtf8 (String.singleton c)

/-- The value of a hexadecimal digit. -/
def hexValue? (c : Char) : Option Nat :=
  if c.isDigit then some (c.toNat - '0'.toNat)
  else if 'a' ≤ c ∧ c ≤ 'f' then some (c.toNat - 'a'.toNat + 10)
  else if 'A' ≤ c ∧ c ≤ 'F' then some (c.toNat - 'A'.toNat + 10)
  else none

/-- The byte that two hexadecimal digits stand for. -/
def escapedByte? (a b : Char) : Option UInt8 := do
  let high ← hexValue? a
  let low ← hexValue? b
  return UInt8.ofNat (16 * high + low)

/-- The bytes that a part of a pair stands for. -/
def bytes : List Char → List UInt8
  | '+' :: rest => 32 :: bytes rest
  | '%' :: a :: b :: rest =>
    match escapedByte? a b with
    | some byte => byte :: bytes rest
    | none => 37 :: bytes (a :: b :: rest)
  | c :: rest => charBytes c ++ bytes rest
  | [] => []

/-- The text that a part of a pair stands for. -/
def decode (cs : List Char) : String := String.ofList (decodeUtf8Lossy (bytes cs))

/-- Cuts a row of characters at every occurrence of one of them. -/
def cut (separator : Char) : List Char → List (List Char)
  | [] => [[]]
  | c :: rest =>
    match cut separator rest with
    | [] => [[c]]
    | part :: parts => if c = separator then [] :: part :: parts else (c :: part) :: parts

/-- The name and the value of a pair; the value of one without `=` is empty. -/
def pair (cs : List Char) : String × String :=
  (decode (cs.takeWhile (· ≠ '=')), decode ((cs.dropWhile (· ≠ '=')).drop 1))

/-- The pairs of a query string, in order. -/
def pairs (query : List Char) : List (String × String) :=
  ((cut '&' query).filter (!·.isEmpty)).map pair

end Query

end Sparring
