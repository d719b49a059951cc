/-!
# The gate

One visitor at a time has access; the others wait in the order in which they first asked. When
a visitor leaves, the gate is handed to the first in the queue at once, so it counts as held
even before that visitor has noticed.

A visitor asks by `poll`, again and again until it is inside. The same step serves for the first
time, when it takes the gate or joins the queue, and for the last, when it finds the gate
handed to it.
-/

namespace Sparring

/-- A gate for visitors of type `ν`. Only a held gate has a queue. -/
inductive Gate (ν : Type) where
  | free
  /-- Held by a visitor, who is `inside` once it has noticed. -/
  | held (holder : ν) (inside : Bool) (queue : List ν)
deriving DecidableEq, Repr, Inhabited

namespace Gate

variable {ν : Type} [DecidableEq ν]

/-- Somebody has the gate or has been handed it. -/
def isHeld : Gate ν → Bool
  | free => false
  | held .. => true

/-- The visitor who has the gate or has been handed it. -/
def holder? : Gate ν → Option ν
  | free => none
  | held v _ _ => some v

/-- The visitors who wait, in order. -/
def queue : Gate ν → List ν
  | free => []
  | held _ _ waiting => waiting

/-- Whether a visitor has access. -/
def hasAccess (g : Gate ν) (v : ν) : Bool :=
  match g with
  | held w true _ => v = w
  | _ => false

/-- A visitor asks for access: it takes a free gate, notices one that was handed to it, and
joins the queue if it is not there yet. Says whether it is inside. -/
def poll (g : Gate ν) (v : ν) : Bool × Gate ν :=
  match g with
  | free => (true, held v true [])
  | held w inside waiting =>
    if v = w then (true, held w true waiting)
    else if v ∈ waiting then (false, g)
    else (false, held w inside (waiting ++ [v]))

/-- A visitor takes the gate only if it is free. -/
def tryEnter (g : Gate ν) (v : ν) : Bool × Gate ν :=
  match g with
  | free => (true, held v true [])
  | held .. => (false, g)

/-- The gate passes to the first of those who wait. -/
def passOn : List ν → Gate ν
  | [] => free
  | v :: rest => held v false rest

/-- A visitor gives up its access, or its place in the queue. -/
def leave (g : Gate ν) (v : ν) : Gate ν :=
  match g with
  | free => free
  | held w inside waiting =>
    if v = w then passOn waiting else held w inside (waiting.filter (· ≠ v))

end Gate

end Sparring
