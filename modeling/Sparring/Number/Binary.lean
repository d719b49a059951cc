/-!
# Binary floating-point values

A number of a binary format is a sign and a *rank*: its place among the magnitudes of the
format, counted from zero. Ranks `0, 1, 2, …` are the magnitudes in increasing order and the
last rank is infinity, so comparing two numbers is comparing two integers, and the two zeros,
both of rank `0`, are equal. A NaN has no rank and compares with nothing.

The exact value behind a rank is `significand * 2 ^ scale`. `Sparring.Number.Rounding` goes the
other way, from an exact ratio to the nearest rank.
-/

namespace Sparring

/-- A binary format: the bits of its significands, the leading bit included, and the bits of
its exponent field. -/
structure BinaryFormat where
  /-- Bits of a significand, the leading one included. -/
  precision : Nat
  /-- Bits of the exponent field. -/
  exponentBits : Nat
deriving DecidableEq, Repr

namespace BinaryFormat

/-- The 32-bit format. -/
def single : BinaryFormat := ⟨24, 8⟩

/-- The 64-bit format. -/
def double : BinaryFormat := ⟨53, 11⟩

/-- How many magnitudes share one exponent. -/
def binade (f : BinaryFormat) : Nat := Nat.pow 2 (f.precision - 1)

/-- The rank of infinity, one above the largest finite magnitude. -/
def infinityRank (f : BinaryFormat) : Nat := f.binade * (Nat.pow 2 f.exponentBits - 1)

/-- The smallest positive magnitude is two to this power. -/
def minScale (f : BinaryFormat) : Int :=
  3 - Nat.pow 2 (f.exponentBits - 1) - f.precision

/-- The significand of a finite rank: below the first full binade it is the rank itself. -/
def significand (f : BinaryFormat) (rank : Nat) : Nat :=
  if rank / f.binade = 0 then rank else f.binade + rank % f.binade

/-- The power of two that scales the significand of a finite rank. -/
def scale (f : BinaryFormat) (rank : Nat) : Int :=
  f.minScale + (rank / f.binade - 1 : Nat)

end BinaryFormat

/-- A value of a binary format: a NaN, or a sign with a rank no greater than infinity's. -/
inductive Binary (f : BinaryFormat) where
  | nan
  | ofRank (negative : Bool) (rank : Nat) (bounded : rank ≤ f.infinityRank)
deriving DecidableEq

/-- A 32-bit value. -/
abbrev Single := Binary .single

/-- A 64-bit value. -/
abbrev Double := Binary .double

namespace Binary

variable {f : BinaryFormat}

/-- Zero with the given sign. -/
def signedZero (negative : Bool) : Binary f := ofRank negative 0 (Nat.zero_le _)

/-- Positive zero. -/
def zero : Binary f := signedZero false

/-- Infinity with the given sign. -/
def infinity (negative : Bool) : Binary f := ofRank negative f.infinityRank (Nat.le_refl _)

/-- The number of the given sign and rank; a rank above infinity's counts as infinity. -/
def ofRankClamped (negative : Bool) (rank : Nat) : Binary f :=
  ofRank negative (min rank f.infinityRank) (Nat.min_le_right _ _)

instance : Inhabited (Binary f) := ⟨zero⟩

/-- Neither a NaN nor an infinity. -/
def isFinite : Binary f → Bool
  | nan => false
  | ofRank _ rank _ => rank < f.infinityRank

/-! ## Order -/

/-- The place of a number on the line, the zeros at `0`; a NaN has none. -/
def place? : Binary f → Option Int
  | nan => none
  | ofRank negative rank _ => some (if negative then -(rank : Int) else rank)

/-- Numeric `≤`, false as soon as a NaN takes part. -/
def le (x y : Binary f) : Bool :=
  match x.place?, y.place? with
  | some a, some b => a ≤ b
  | _, _ => false

/-- Numeric `<`, false as soon as a NaN takes part. -/
def lt (x y : Binary f) : Bool :=
  match x.place?, y.place? with
  | some a, some b => a < b
  | _, _ => false

/-- Numeric equality: the two zeros are equal and a NaN differs from itself. -/
def eqv (x y : Binary f) : Bool :=
  match x.place?, y.place? with
  | some a, some b => a = b
  | _, _ => false

instance : LE (Binary f) := ⟨fun x y => x.le y = true⟩

instance : LT (Binary f) := ⟨fun x y => x.lt y = true⟩

instance (x y : Binary f) : Decidable (x ≤ y) := inferInstanceAs (Decidable (x.le y = true))

instance (x y : Binary f) : Decidable (x < y) := inferInstanceAs (Decidable (x.lt y = true))

theorem le_iff {x y : Binary f} :
    x ≤ y ↔ ∃ a b, x.place? = some a ∧ y.place? = some b ∧ a ≤ b := by
  change x.le y = true ↔ _
  unfold le
  split <;> simp_all

theorem lt_iff {x y : Binary f} :
    x < y ↔ ∃ a b, x.place? = some a ∧ y.place? = some b ∧ a < b := by
  change x.lt y = true ↔ _
  unfold lt
  split <;> simp_all

theorem eqv_iff {x y : Binary f} :
    x.eqv y = true ↔ ∃ a, x.place? = some a ∧ y.place? = some a := by
  unfold eqv
  cases x.place? <;> cases y.place? <;> simp [eq_comm]

end Binary

end Sparring
