import Sparring.Gate

/-!
# A guarded list

A list behind a gate, and the visitors and calls that come to it. A visitor enters, reads and
appends while it is inside, and leaves. A call appends one value in a single visit: it is done
as soon as it gets in, and leaves at once.

Visitors and calls go by names. Each arrival under a name gets a fresh ticket, which is what the
gate knows it by, so a name can be used again. Whoever arrives need not ask at once: the gate
knows nothing of a visitor or a call before it asks for the first time.
-/

namespace Sparring

/-- A ticket of an arrival at the gate. -/
abbrev Ticket := Nat

/-- The gate, the list behind it, and who is known by which name. -/
structure GuardedList where
  gate : Gate Ticket
  items : List Int
  visitors : List (String × Ticket)
  /-- The calls that are not done, with the value each will append. -/
  calls : List (String × Ticket × Int)
  tickets : Nat

namespace GuardedList

/-- One thing done at the gate. -/
inductive Step where
  /-- A visitor arrives and does not ask yet. -/
  | arrive (who : String)
  /-- A visitor arrives and asks for the first time. -/
  | enter (who : String)
  /-- A visitor asks again. -/
  | poll (who : String)
  /-- A visitor enters if nobody has the gate. -/
  | tryEnter (who : String)
  | leave (who : String)
  | push (who : String) (value : Int)
  | read (who : String)
  /-- A call arrives and does not ask yet. -/
  | arriveCall (who : String) (value : Int)
  /-- A call arrives and asks for the first time. -/
  | call (who : String) (value : Int)
  /-- A call asks again. -/
  | pollCall (who : String)
  /-- A call is given up. -/
  | dropCall (who : String)

/-- What a step reports. -/
inductive Report where
  | inside
  | waiting
  | unknown
  | refused
  | outside
  | was (there : Bool)
  | length (n : Nat)
  | items (values : List Int)

/-- A guarded list that nobody has come to. -/
def new (items : List Int) : GuardedList := ⟨.free, items, [], [], 0⟩

/-- A list of pairs without those under a name. -/
def without {α : Type} (who : String) (pairs : List (String × α)) : List (String × α) :=
  pairs.filter (·.1 ≠ who)

/-- Gives up whatever a visitor's name stands for. -/
def removeVisitor (g : GuardedList) (who : String) : GuardedList :=
  match g.visitors.lookup who with
  | none => g
  | some ticket =>
    { g with gate := g.gate.leave ticket, visitors := without who g.visitors }

/-- Gives up whatever a call's name stands for. -/
def removeCall (g : GuardedList) (who : String) : GuardedList :=
  match g.calls.lookup who with
  | none => g
  | some (ticket, _) =>
    { g with gate := g.gate.leave ticket, calls := without who g.calls }

/-- A visitor arrives under a name, which it takes over. -/
def addVisitor (g : GuardedList) (who : String) : GuardedList :=
  let g := g.removeVisitor who
  { g with visitors := (who, g.tickets) :: g.visitors, tickets := g.tickets + 1 }

/-- A call arrives under a name, which it takes over. -/
def addCall (g : GuardedList) (who : String) (value : Int) : GuardedList :=
  let g := g.removeCall who
  { g with calls := (who, g.tickets, value) :: g.calls, tickets := g.tickets + 1 }

/-- A visitor asks for access. -/
def pollVisitor (g : GuardedList) (who : String) : Report × GuardedList :=
  match g.visitors.lookup who with
  | none => (.unknown, g)
  | some ticket =>
    let (inside, gate) := g.gate.poll ticket
    (if inside then .inside else .waiting, { g with gate })

/-- A call asks for access, and is done if it gets it. -/
def pollCall (g : GuardedList) (who : String) : Report × GuardedList :=
  match g.calls.lookup who with
  | none => (.unknown, g)
  | some (ticket, value) =>
    match g.gate.poll ticket with
    | (false, gate) => (.waiting, { g with gate })
    | (true, gate) =>
      let items := g.items ++ [value]
      (.length items.length,
        { g with gate := gate.leave ticket, items, calls := without who g.calls })

/-- Whether a visitor is inside. -/
def isInside (g : GuardedList) (who : String) : Bool :=
  (g.visitors.lookup who).any g.gate.hasAccess

/-- Performs a step. -/
def perform (g : GuardedList) : Step → Report × GuardedList
  | .arrive who => (.waiting, g.addVisitor who)
  | .enter who => (g.addVisitor who).pollVisitor who
  | .poll who => g.pollVisitor who
  | .tryEnter who =>
    match g.gate.tryEnter g.tickets with
    | (false, _) => (.refused, g)
    | (true, gate) =>
      (.inside,
        { g with
          gate
          visitors := (who, g.tickets) :: without who g.visitors
          tickets := g.tickets + 1 })
  | .leave who => (.was (g.visitors.lookup who).isSome, g.removeVisitor who)
  | .push who value =>
    if g.isInside who then
      let items := g.items ++ [value]
      (.length items.length, { g with items })
    else (.outside, g)
  | .read who => (if g.isInside who then .items g.items else .outside, g)
  | .arriveCall who value => (.waiting, g.addCall who value)
  | .call who value => (g.addCall who value).pollCall who
  | .pollCall who => g.pollCall who
  | .dropCall who => (.was (g.calls.lookup who).isSome, g.removeCall who)

/-- The reports of a row of steps, each with whether the gate is held after it. -/
def transcript (g : GuardedList) : List Step → List (Report × Bool)
  | [] => []
  | step :: rest =>
    let (report, g') := g.perform step
    (report, g'.gate.isHeld) :: transcript g' rest

end GuardedList

end Sparring
