import Sparring.Number.Binary

/-!
# Rounding to the nearest value

`BinaryFormat.nearestRank` sends a positive ratio of natural numbers to the rank of the nearest
magnitude of a format; a tie goes to the even rank, which is the one with the even significand.
Reading decimal text and narrowing from 64 to 32 bits are both this one rounding.
-/

namespace Sparring

/-- The quotient rounded to the nearest natural number, a tie to the even one. -/
def roundHalfEven (num den : Nat) : Nat :=
  let q := num / den
  let r := num % den
  if 2 * r < den then q
  else if den < 2 * r then q + 1
  else if q % 2 = 0 then q else q + 1

/-- The greatest `k` with `2 ^ k * den ≤ num`, for positive `num` and `den`. -/
def floorLog2Ratio (num den : Nat) : Int :=
  let k : Int := (num.log2 : Int) - den.log2
  if den * Nat.pow 2 k.toNat ≤ num * Nat.pow 2 (-k).toNat then k else k - 1

/-- The rank of the magnitude nearest to `num / den`, for positive `num` and `den`. It may lie
above infinity's rank, and then the ratio overflows. -/
def BinaryFormat.nearestRank (f : BinaryFormat) (num den : Nat) : Nat :=
  let scale := max f.minScale (floorLog2Ratio num den - (f.precision - 1 : Nat))
  let significand := roundHalfEven (num * Nat.pow 2 (-scale).toNat) (den * Nat.pow 2 scale.toNat)
  (scale - f.minScale).toNat * f.binade + significand

namespace Binary

/-- The value nearest to the ratio with the given sign, zero and overflow included. -/
def ofRatio (f : BinaryFormat) (negative : Bool) (num den : Nat) : Binary f :=
  if num = 0 then signedZero negative
  else ofRankClamped negative (f.nearestRank num den)

/-- The value of another format nearest to `x`. -/
def convert {f : BinaryFormat} (g : BinaryFormat) : Binary f → Binary g
  | nan => nan
  | ofRank negative rank _ =>
    if rank = f.infinityRank then infinity negative
    else
      let scale := f.scale rank
      ofRatio g negative (f.significand rank * Nat.pow 2 scale.toNat) (Nat.pow 2 (-scale).toNat)

/-- The value nearest to an integer. -/
def ofInt (f : BinaryFormat) (n : Int) : Binary f :=
  ofRatio f (decide (n < 0)) n.natAbs 1

end Binary

end Sparring
