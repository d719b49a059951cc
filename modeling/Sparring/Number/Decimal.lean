import Sparring.Number.Rounding

/-!
# Decimal text

A decimal is a sign, a natural number of digits and a power of ten. `Decimal.read?` accepts an
optional sign, digits with an optional point (at least one digit on one side of it) and an
optional exponent, and nothing else. `Binary.read?` reads a floating-point value from text: a
decimal, rounded once to the nearest value of the format, or one of the words `inf`,
`infinity` and `nan` in any case.
-/

namespace Sparring

/-- The exact decimal `± digits * 10 ^ exponent`. -/
structure Decimal where
  negative : Bool
  digits : Nat
  exponent : Int
deriving DecidableEq, Repr

/-- The value of an ASCII digit. -/
def digitValue (c : Char) : Nat := c.toNat - '0'.toNat

/-- The number written by a row of decimal digits. -/
def natOfDigits (cs : List Char) : Nat := cs.foldl (fun n c => 10 * n + digitValue c) 0

/-- The decimal digits of a natural number. -/
def digitsOfNat (n : Nat) : List Char := Nat.toDigits 10 n

/-- A number is read back from its digits. -/
theorem natOfDigits_digitsOfNat (n : Nat) : natOfDigits (digitsOfNat n) = n :=
  calc
    natOfDigits (digitsOfNat n) = Nat.ofDigitChars 10 (Nat.toDigits 10 n) 0 :=
      Nat.ofDigitChars_eq_foldl.symm
    _ = n := Nat.ofDigitChars_ten_toDigits

/-- Splits an optional sign off; `true` is a minus. -/
def splitSign : List Char → Bool × List Char
  | '-' :: rest => (true, rest)
  | '+' :: rest => (false, rest)
  | rest => (false, rest)

namespace Decimal

/-- Reads what may follow the digits: nothing, or `e` or `E` with a signed whole number. -/
def readExponent? : List Char → Option Int
  | [] => some 0
  | c :: rest =>
    if c = 'e' ∨ c = 'E' then
      let (negative, digits) := splitSign rest
      if digits.isEmpty ∨ ¬ digits.all Char.isDigit then none
      else
        let n : Int := natOfDigits digits
        some (if negative then -n else n)
    else none

/-- Splits a fraction, a point and its digits, off; without a point there is none. -/
def splitFraction : List Char → List Char × List Char
  | '.' :: rest => (rest.takeWhile Char.isDigit, rest.dropWhile Char.isDigit)
  | rest => ([], rest)

/-- Reads a decimal that has no sign. -/
def readUnsigned? (negative : Bool) (cs : List Char) : Option Decimal :=
  let whole := cs.takeWhile Char.isDigit
  let (fraction, rest) := splitFraction (cs.dropWhile Char.isDigit)
  if whole.isEmpty ∧ fraction.isEmpty then none
  else
    (readExponent? rest).map fun e =>
      ⟨negative, natOfDigits (whole ++ fraction), e - fraction.length⟩

/-- Reads a decimal with an optional sign. -/
def read? (cs : List Char) : Option Decimal :=
  let (negative, rest) := splitSign cs
  readUnsigned? negative rest

/-- Powers of ten beyond this one are out of reach of every format in use, on both sides. -/
def farExponent : Int := 400

/-- The nearest value of a format. A decimal of `n` digits and exponent `e` lies below
`10 ^ (n + e)` and not below `10 ^ (n + e - 1)`, so one that is far out is zero or overflows
without any power being computed. -/
def toBinary (f : BinaryFormat) (d : Decimal) : Binary f :=
  let top : Int := (digitsOfNat d.digits).length + d.exponent
  if d.digits = 0 ∨ top < -farExponent then .signedZero d.negative
  else if farExponent < top then .infinity d.negative
  else
    .ofRatio f d.negative (d.digits * Nat.pow 10 d.exponent.toNat)
      (Nat.pow 10 (-d.exponent).toNat)

end Decimal

namespace Binary

/-- Reads a value: one of the words for infinity and NaN in any case, with an optional sign,
or a decimal. -/
def read? (f : BinaryFormat) (cs : List Char) : Option (Binary f) :=
  let (negative, rest) := splitSign cs
  let word := rest.map Char.toLower
  if word = ['n', 'a', 'n'] then some nan
  else if word = ['i', 'n', 'f'] ∨ word = ['i', 'n', 'f', 'i', 'n', 'i', 't', 'y'] then
    some (infinity negative)
  else (Decimal.readUnsigned? negative rest).map (·.toBinary f)

end Binary

end Sparring
