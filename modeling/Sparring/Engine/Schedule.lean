import Sparring.Engine.Backend

/-!
# Schedules

A system leaves open what happens next. A *world* around its engines decides: it picks their
next step, and it knows what will happen of its own accord if everybody waits. `System.settle`
runs a system until nothing is left to do, engines before tasks and earlier tasks before later
ones; it takes no time, so an engine that runs by itself does nothing meanwhile. `System.await`
also lets time pass until a task has finished.
-/

namespace Sparring

/-- A world `ω` around engines `σ`. -/
class World (ω σ : Type) (ε : outParam Type) extends Backend σ ε where
  /-- The next step of the engines, if one is due, and the world after it was picked. -/
  next? : ω → σ → Option ε × ω
  /-- The step that the passing of time will bring, if any, and the world by then. -/
  wake? : ω → σ → Option ε × ω

namespace System

variable {ω σ ε : Type} [World ω σ ε]

/-- Runs a system until no engine and no task has anything to do, for at most `fuel` steps. -/
def settle : Nat → ω → System σ → ω × System σ
  | 0, w, s => (w, s)
  | fuel + 1, w, s =>
    if s.service.aborted then (w, s)
    else
      match World.next? w s.engines with
      | (some e, w) => settle fuel w (s.step (.engine e))
      | (none, w) =>
        match s.service.nextRunnable? with
        | some id => settle fuel w (s.step (.run id))
        | none => (w, s)

/-- Settles a system and lets time pass until a task has finished, for at most `waits` times. -/
def await (fuel : Nat) (id : TaskId) : Nat → ω → System σ → ω × System σ
  | 0, w, s => (w, s)
  | waits + 1, w, s =>
    let (w, s) := settle fuel w s
    if s.service.aborted || (s.service.result? id).isSome then (w, s)
    else
      match World.wake? w s.engines with
      | (some e, w) => await fuel id waits w (s.step (.engine e))
      | (none, w) => (w, s)

end System

end Sparring
