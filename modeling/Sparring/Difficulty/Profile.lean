import Sparring.Number.Shortest

/-!
# Profiles

A profile says how strongly one move is to be played: by which model, at which temperature, and
within which budgets. The budgets become the limits of a search, where a node or depth budget
of zero is no limit at all, and the time budget is a span of time that can be told in milliseconds
again (`Duration.toNat_millis_ofMillis`).
-/

namespace Sparring

/-! ## Spans of time -/

/-- A span of time: whole seconds, and the nanoseconds beyond them. -/
structure Duration where
  seconds : UInt64
  nanoseconds : Fin 1000000000
deriving DecidableEq, Repr

namespace Duration

/-- The span of so many milliseconds. -/
def ofMillis (ms : UInt64) : Duration where
  seconds := ms / 1000
  nanoseconds := ⟨(ms % 1000).toNat * 1000000, by
    have hlt : (ms % 1000).toNat < 1000 := UInt64.toNat_mod_lt ms (by decide)
    omega⟩

/-- A plain number is a number of milliseconds. -/
instance (n : Nat) [OfNat UInt64 n] : OfNat Duration n := ⟨ofMillis (OfNat.ofNat n)⟩

/-- The whole milliseconds of a span, in a word that has room for those of any span. -/
def millis (d : Duration) : BitVec 128 :=
  BitVec.ofNat 128 (d.seconds.toNat * 1000 + d.nanoseconds / 1000000)

theorem toNat_millis (d : Duration) :
    d.millis.toNat = d.seconds.toNat * 1000 + d.nanoseconds / 1000000 := by
  have hseconds := d.seconds.toNat_lt
  have hnanoseconds := d.nanoseconds.isLt
  rw [millis, BitVec.toNat_ofNat, Nat.mod_eq_of_lt]
  omega

/-- No millisecond is lost in a span. -/
theorem toNat_millis_ofMillis (ms : UInt64) : (ofMillis ms).millis.toNat = ms.toNat := by
  rw [toNat_millis]
  simp only [ofMillis, UInt64.toNat_div, UInt64.toNat_mod, UInt64.reduceToNat]
  rw [Nat.mul_div_cancel _ (by decide), Nat.div_add_mod']

end Duration

/-! ## Limits and profiles -/

/-- The limits of one search; an absent limit is no limit. -/
structure SearchLimits where
  /-- How long to think. -/
  time : Duration
  depth : Option UInt32
  nodes : Option UInt64
deriving DecidableEq, Repr

/-- Milliseconds of thinking time. -/
def SearchLimits.moveTime (l : SearchLimits) : BitVec 128 := l.time.millis

/-- The way one move is to be played. -/
structure Profile where
  /-- Milliseconds for one move. -/
  timeBudget : UInt64
  /-- The greatest number of nodes, or zero for any number. -/
  nodeBudget : UInt64
  /-- The greatest depth, or zero for any depth. -/
  depthBudget : UInt32
  /-- How randomly the engine plays. -/
  temperature : Single
  /-- The model the engine is loaded with. -/
  model : String
deriving DecidableEq

/-- The search limits of a profile: a budget of zero is left out. -/
def Profile.limits (p : Profile) : SearchLimits where
  time := .ofMillis p.timeBudget
  depth := if p.depthBudget = 0 then none else some p.depthBudget
  nodes := if p.nodeBudget = 0 then none else some p.nodeBudget

end Sparring
