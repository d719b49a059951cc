import Sparring.Number.Decimal

/-!
# Shortest digits

Among the decimals that read back as a given value, `shortestDigits` picks one with the fewest
digits, and of those the nearest; a `Tie` says what is done at equal distance. The reals that read
back as a value form an interval whose ends lie halfway to its neighbours, the ends included when
the significand is even. If any point of a decimal grid lies in that interval then one of the
value's two neighbours on the grid does, so it is enough to test those, grid by grid.

Two notations are built on the digits: `Binary.toText` is always positional, and its ties go up;
`Binary.toJson` keeps at least one decimal and goes over to an exponent for very large and very
small numbers, and its ties go to the even digit.
-/

namespace Sparring

/-- Which of two decimals at equal distance is taken. -/
inductive Tie where
  /-- The one farther from zero. -/
  | up
  /-- The one with an even last digit. -/
  | toEven
deriving DecidableEq, Repr

/-- Whether the lower of two neighbours `n` and `n + 1` at equal distance is taken. -/
def Tie.takesLower (t : Tie) (n : Nat) : Bool := t = .toEven && n % 2 = 0

/-- The reals that round to one magnitude, with a common denominator: the value itself, and the
two ends of the interval. -/
structure RoundingInterval where
  low : Nat
  value : Nat
  high : Nat
  den : Nat
  /-- The ends belong to the interval. -/
  closed : Bool
deriving Repr

namespace RoundingInterval

/-- The interval of a finite positive rank. Its lower end is nearer where the binade changes. -/
def ofRank (f : BinaryFormat) (rank : Nat) : RoundingInterval :=
  let m := f.significand rank
  let scale := f.scale rank - 2
  let narrow : Bool := decide (m = f.binade ∧ f.binade < rank)
  let up := Nat.pow 2 scale.toNat
  { low := (if narrow then 4 * m - 1 else 4 * m - 2) * up
    value := 4 * m * up
    high := (4 * m + 2) * up
    den := Nat.pow 2 (-scale).toNat
    closed := decide (m % 2 = 0) }

/-- Membership of the ratio `num / d`. -/
def contains (i : RoundingInterval) (num d : Nat) : Bool :=
  let x := num * i.den
  let low := i.low * d
  let high := i.high * d
  if i.closed then low ≤ x && x ≤ high else low < x && x < high

/-- The power of ten of the first digit: the greatest `k` with `10 ^ k ≤ value / den`, found
from an estimate that is never too great by the given number of steps up. -/
def leadingPower (i : RoundingInterval) : Nat → Int → Int
  | 0, k => k
  | steps + 1, k =>
    let next := k + 1
    if i.den * Nat.pow 10 next.toNat ≤ i.value * Nat.pow 10 (-next).toNat then
      i.leadingPower steps next
    else k

/-- The two neighbours of the value among the multiples of `10 ^ grid`, tried against the
interval: the only one inside, or the nearer, or at equal distance the one that the tie says. -/
def onGrid? (i : RoundingInterval) (tie : Tie) (grid : Int) : Option Nat :=
  let up := Nat.pow 10 grid.toNat
  let down := Nat.pow 10 (-grid).toNat
  let num := i.value * down
  let den := i.den * up
  let below := num / den
  let twice := 2 * (num % den)
  match i.contains (below * up) down, i.contains ((below + 1) * up) down with
  | true, true =>
    some (if twice < den ∨ (twice = den ∧ tie.takesLower below) then below else below + 1)
  | true, false => some below
  | false, true => some (below + 1)
  | false, false => none

/-- The first of the grids `10 ^ grid`, `10 ^ (grid - 1)`, … that has a point in the interval. -/
def firstOnGrid (i : RoundingInterval) (tie : Tie) : Nat → Int → Nat × Int
  | 0, grid => (i.value * Nat.pow 10 (-grid).toNat / (i.den * Nat.pow 10 grid.toNat), grid)
  | fuel + 1, grid =>
    match i.onGrid? tie grid with
    | some n => (n, grid)
    | none => i.firstOnGrid tie fuel (grid - 1)

end RoundingInterval

/-- Drops the zeros at the end of `digits`, raising the exponent; `fuel` bounds their number. -/
def stripZeros : Nat → Nat → Int → Nat × Int
  | 0, digits, exponent => (digits, exponent)
  | fuel + 1, digits, exponent =>
    if digits % 10 = 0 then stripZeros fuel (digits / 10) (exponent + 1) else (digits, exponent)

/-- The digits and the power of ten of the shortest decimal that reads back as a finite positive
rank. Seventeen digits single out every value of both formats. -/
def shortestDigits (f : BinaryFormat) (tie : Tie) (rank : Nat) : Nat × Int :=
  let i := RoundingInterval.ofRank f rank
  let estimate : Int := (floorLog2Ratio i.value i.den * 1233) / 4096 - 1
  let (digits, exponent) := i.firstOnGrid tie 17 (i.leadingPower 4 estimate)
  stripZeros 17 digits exponent

/-- Positional notation: zeros fill the places between the digits and the point. -/
def positional (digits : Nat) (exponent : Int) : List Char :=
  let ds := digitsOfNat digits
  if 0 ≤ exponent then ds ++ List.replicate exponent.toNat '0'
  else
    let places := (-exponent).toNat
    if places < ds.length then ds.take (ds.length - places) ++ '.' :: ds.drop (ds.length - places)
    else '0' :: '.' :: List.replicate (places - ds.length) '0' ++ ds

/-- Scientific notation: one digit before the point, the exponent with its sign. -/
def scientific (digits : Nat) (exponent : Int) : List Char :=
  let ds := digitsOfNat digits
  let power := exponent + (ds.length - 1 : Nat)
  let mantissa := match ds with
    | [] => []
    | [d] => [d]
    | d :: rest => d :: '.' :: rest
  mantissa ++ 'e' :: (if power < 0 then '-' else '+') :: digitsOfNat power.natAbs

namespace Binary

variable {f : BinaryFormat}

/-- A sign in front of text. -/
def withSign (negative : Bool) (text : List Char) : String :=
  String.ofList (if negative then '-' :: text else text)

/-- The shortest text that reads back, always positional, a whole number without a point. -/
def toText : Binary f → String
  | nan => "NaN"
  | ofRank negative rank _ =>
    if rank = f.infinityRank then withSign negative ['i', 'n', 'f']
    else if rank = 0 then withSign negative ['0']
    else
      let (digits, exponent) := shortestDigits f .up rank
      withSign negative (positional digits exponent)

/-- The range of scientific exponents that JSON text writes positionally. -/
def positionalRange (f : BinaryFormat) : Int × Int :=
  if f.precision ≤ 24 then (-6, 12) else (-5, 15)

/-- JSON text: shortest digits, a whole number with one decimal, `null` for what JSON cannot
write. -/
def toJson : Binary f → String
  | nan => "null"
  | ofRank negative rank _ =>
    if rank = f.infinityRank then "null"
    else if rank = 0 then withSign negative ['0', '.', '0']
    else
      let (digits, exponent) := shortestDigits f .toEven rank
      let power := exponent + ((digitsOfNat digits).length - 1 : Nat)
      let (first, last) := positionalRange f
      withSign negative <|
        if power < first ∨ last < power then scientific digits exponent
        else if 0 ≤ exponent then positional digits exponent ++ ['.', '0']
        else positional digits exponent

end Binary

end Sparring
