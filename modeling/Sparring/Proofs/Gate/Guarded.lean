import Sparring.Proofs.Gate.Roster
import Sparring.Proofs.Run

/-!
# What comes of a guarded list

A row of steps on a guarded list shows which tickets ask at the gate, which are given up before
they are let in, which are let in, what is appended by whom, and which calls arrive.
-/

namespace Sparring.GuardedList

/-! ## Steps -/

/-- The ticket that a party holds. -/
def ticket? (g : GuardedList) : Party → Option Ticket
  | .visitor who => g.visitors.lookup who
  | .call who => (g.calls.lookup who).map (·.1)

/-- The guarded list after a step. -/
def advance (g : GuardedList) (step : Step) : GuardedList := (g.perform step).2

/-- The guarded list after a row of steps. -/
def after (g : GuardedList) (steps : List Step) : GuardedList := steps.foldl advance g

/-- The ticket that asks at the gate in a step. -/
def asking (g : GuardedList) : Step → List Ticket
  | .enter _ | .call .. => [g.tickets]
  | .tryEnter _ => if g.gate.isHeld then [] else [g.tickets]
  | .poll who => (g.ticket? (.visitor who)).toList
  | .pollCall who => (g.ticket? (.call who)).toList
  | _ => []

/-- The party that goes in a step, or whose name is taken over. -/
def leaving (g : GuardedList) : Step → Option Party
  | .arrive who | .enter who | .leave who => some (.visitor who)
  | .tryEnter who => if g.gate.isHeld then none else some (.visitor who)
  | .arriveCall who _ | .call who _ | .dropCall who => some (.call who)
  | _ => none

/-- The ticket of a party that has not been let in. -/
def outsider (g : GuardedList) (a : Party) : List Ticket :=
  (g.ticket? a).toList.filter fun t => !g.gate.hasAccess t

/-- The ticket that is given up in a step without having been let in. -/
def dropping (g : GuardedList) (step : Step) : List Ticket :=
  (g.leaving step).toList.flatMap g.outsider

/-- The ticket that is let in in a step. -/
def granting (g : GuardedList) (step : Step) : List Ticket :=
  match (g.perform step).1 with
  | .inside | .length _ => (g.asking step).filter fun t => !g.gate.hasAccess t
  | _ => []

/-- What is to be appended in a step, with the ticket of whoever does it: what a visitor pushes
that is inside, and the value of a call that asks and may come in. -/
def pushing (g : GuardedList) : Step → List (Ticket × Int)
  | .push who value =>
    if g.isInside who then (g.ticket? (.visitor who)).toList.map (·, value) else []
  | .call who value =>
    if (g.addCall who value).gate.admits g.tickets then [(g.tickets, value)] else []
  | .pollCall who => (g.calls.lookup who).toList.filter fun p => g.gate.admits p.1
  | _ => []

/-- The call that arrives in a step, with the value that it is to append. -/
def calling (g : GuardedList) : Step → List (Ticket × Int)
  | .arriveCall _ value | .call _ value => [(g.tickets, value)]
  | _ => []

/-! ## Leaving and arriving -/

/-- Gives up whatever a party's name stands for. -/
def remove (g : GuardedList) : Party → GuardedList
  | .visitor who => g.removeVisitor who
  | .call who => g.removeCall who

section Views

variable (g : GuardedList) (a : Party) (who : String) (value : Int)

theorem remove_of_none {g : GuardedList} {a : Party} (h : g.ticket? a = none) :
    g.remove a = g := by
  cases a with
  | visitor who =>
    have hl : g.visitors.lookup who = none := h
    simp [remove, removeVisitor, hl]
  | call who =>
    have hl : g.calls.lookup who = none := Option.map_eq_none_iff.1 h
    simp [remove, removeCall, hl]

theorem gate_remove {g : GuardedList} {a : Party} {t : Ticket} (h : g.ticket? a = some t) :
    (g.remove a).gate = g.gate.leave t := by
  cases a with
  | visitor who =>
    have hl : g.visitors.lookup who = some t := h
    simp [remove, removeVisitor, hl]
  | call who =>
    obtain ⟨⟨u, v⟩, hl, hu⟩ := Option.map_eq_some_iff.1 h
    simp [remove, removeCall, hl, ← hu]

@[simp] theorem tickets_remove : (g.remove a).tickets = g.tickets := by
  cases a with
  | visitor who =>
    simp only [remove, removeVisitor]
    split <;> rfl
  | call who =>
    simp only [remove, removeCall]
    split <;> rfl

@[simp] theorem items_remove : (g.remove a).items = g.items := by
  cases a with
  | visitor who =>
    simp only [remove, removeVisitor]
    split <;> rfl
  | call who =>
    simp only [remove, removeCall]
    split <;> rfl

theorem visitor_remove : (g.remove a).visitors.lookup who =
    if a = .visitor who then none else g.visitors.lookup who := by
  cases a with
  | visitor other =>
    simp only [remove, removeVisitor, Party.visitor.injEq]
    split
    next hl =>
      split
      next he => rw [← he, hl]
      next => rfl
    next => simp only [without, lookup_filter_ne, eq_comm]
  | call other =>
    simp only [remove, removeCall, reduceCtorEq, if_false]
    split <;> rfl

theorem call_remove : (g.remove a).calls.lookup who =
    if a = .call who then none else g.calls.lookup who := by
  cases a with
  | visitor other =>
    simp only [remove, removeVisitor, reduceCtorEq, if_false]
    split <;> rfl
  | call other =>
    simp only [remove, removeCall, Party.call.injEq]
    split
    next hl =>
      split
      next he => rw [← he, hl]
      next => rfl
    next => simp only [without, lookup_filter_ne, eq_comm]

theorem ticket?_remove : (g.remove a).ticket? = Function.update g.ticket? a none := by
  funext b
  rw [Function.update_apply]
  cases b with
  | visitor who => simp only [ticket?, visitor_remove, eq_comm]
  | call who =>
    simp only [ticket?, call_remove]
    by_cases ha : a = .call who
    · simp [ha]
    · rw [if_neg ha, if_neg (Ne.symm ha)]

theorem ticket?_addVisitor : (g.addVisitor who).ticket? =
    Function.update (g.remove (.visitor who)).ticket? (.visitor who) (some g.tickets) := by
  funext b
  rw [Function.update_apply]
  have htickets : (g.removeVisitor who).tickets = g.tickets := g.tickets_remove (.visitor who)
  cases b with
  | visitor other =>
    by_cases hw : other = who
    · subst hw
      simp [addVisitor, ticket?, htickets]
    · have hne : (other == who) = false := by simpa using hw
      simp [addVisitor, ticket?, List.lookup_cons, hw, hne, remove]
  | call other => simp [addVisitor, ticket?, remove]

theorem ticket?_addCall : (g.addCall who value).ticket? =
    Function.update (g.remove (.call who)).ticket? (.call who) (some g.tickets) := by
  funext b
  rw [Function.update_apply]
  have htickets : (g.removeCall who).tickets = g.tickets := g.tickets_remove (.call who)
  cases b with
  | visitor other => simp [addCall, ticket?, remove]
  | call other =>
    by_cases hw : other = who
    · subst hw
      simp [addCall, ticket?, htickets]
    · have hne : (other == who) = false := by simpa using hw
      simp [addCall, ticket?, List.lookup_cons, hw, hne, remove]

theorem lookup_addCall :
    (g.addCall who value).calls.lookup who = some (g.tickets, value) := by
  have htickets : (g.removeCall who).tickets = g.tickets := g.tickets_remove (.call who)
  simp [addCall, htickets]

@[simp] theorem items_addCall :
    (g.addCall who value).items = g.items := g.items_remove (.call who)

@[simp] theorem items_addVisitor :
    (g.addVisitor who).items = g.items := g.items_remove (.visitor who)

@[simp] theorem items_pollVisitor :
    (g.pollVisitor who).2.items = g.items := by
  unfold pollVisitor
  split <;> rfl

end Views

/-! ## What is appended -/

/-- How what has been appended stands to the tickets that have been let in, in order, and to the
calls that have arrived, each with its value. -/
structure Appended (granted : List Ticket) (pushes called : List (Ticket × Int)) : Prop where
  /-- It comes in blocks, one for each ticket that has been let in. -/
  blocks : pushes = granted.flatMap fun t => pushes.filter (·.1 = t)
  /-- A call that has been let in has appended its value, once. -/
  once : ∀ p ∈ called, pushes.filter (·.1 = p.1) = if p.1 ∈ granted then [p] else []
  distinct : ∀ p ∈ called, ∀ q ∈ called, p.1 = q.1 → p = q

namespace Appended

variable {granted : List Ticket} {pushes called : List (Ticket × Int)} {t : Ticket} {v : Int}

theorem mem_granted (h : Appended granted pushes called) {p : Ticket × Int} (hp : p ∈ pushes) :
    p.1 ∈ granted := by
  rw [h.blocks] at hp
  obtain ⟨t, ht, hpt⟩ := List.mem_flatMap.1 hp
  have he : p.1 = t := by simpa using (List.mem_filter.1 hpt).2
  rwa [he]

theorem filter_eq_nil (h : Appended granted pushes called) (ht : t ∉ granted) :
    pushes.filter (·.1 = t) = [] := by
  refine List.filter_eq_nil_iff.2 fun p hp he => ht ?_
  have hp1 : p.1 = t := by simpa using he
  exact hp1 ▸ h.mem_granted hp

/-- Whoever is let in has appended nothing yet. -/
theorem blocks_grant (h : Appended granted pushes called) (ht : t ∉ granted) :
    pushes = (granted ++ [t]).flatMap fun u => pushes.filter (·.1 = u) := by
  rw [List.flatMap_append, ← h.blocks]
  simp [h.filter_eq_nil ht]

/-- The block of whoever was let in last is still open. -/
theorem blocks_push {before : List Ticket} (hnodup : (before ++ [t]).Nodup)
    (h : pushes = (before ++ [t]).flatMap fun u => pushes.filter (·.1 = u)) (v : Int) :
    pushes ++ [(t, v)] =
      (before ++ [t]).flatMap fun u => (pushes ++ [(t, v)]).filter (·.1 = u) := by
  have hearlier : before.flatMap (fun u => (pushes ++ [(t, v)]).filter (·.1 = u)) =
      before.flatMap fun u => pushes.filter (·.1 = u) := by
    refine List.flatMap_congr fun u hu => ?_
    have hut : ¬t = u := by
      rintro rfl
      exact (List.nodup_append'.1 hnodup).2.2 hu (by simp)
    simp [hut]
  rw [List.flatMap_append, hearlier]
  conv_lhs => rw [h, List.flatMap_append]
  simp

theorem grant (h : Appended granted pushes called) (ht : t ∉ granted)
    (hno : ∀ p ∈ called, p.1 ≠ t) : Appended (granted ++ [t]) pushes called where
  blocks := h.blocks_grant ht
  once p hp := by
    rw [h.once p hp]
    simp [hno p hp]
  distinct := h.distinct

theorem push (h : Appended granted pushes called) (hnodup : granted.Nodup)
    (hlast : granted.getLast? = some t) (hno : ∀ p ∈ called, p.1 ≠ t) (v : Int) :
    Appended granted (pushes ++ [(t, v)]) called where
  blocks := by
    obtain ⟨before, rfl⟩ := List.getLast?_eq_some_iff.1 hlast
    exact blocks_push hnodup h.blocks v
  once p hp := by
    have hne : ¬t = p.1 := fun he => hno p hp he.symm
    rw [List.filter_append, h.once p hp]
    simp [hne]
  distinct := h.distinct

theorem complete (h : Appended granted pushes called) (hnodup : (granted ++ [t]).Nodup)
    (hcall : (t, v) ∈ called) : Appended (granted ++ [t]) (pushes ++ [(t, v)]) called where
  blocks := by
    have ht : t ∉ granted := fun hmem =>
      (List.nodup_append'.1 hnodup).2.2 hmem (by simp)
    exact blocks_push hnodup (h.blocks_grant ht) v
  once p hp := by
    have ht : t ∉ granted := fun hmem =>
      (List.nodup_append'.1 hnodup).2.2 hmem (by simp)
    by_cases hpt : p.1 = t
    · have hp' : p = (t, v) := h.distinct p hp _ hcall hpt
      subst hp'
      simp [h.filter_eq_nil ht]
    · rw [List.filter_append, h.once p hp]
      simp [hpt, Ne.symm hpt]
  distinct := h.distinct

theorem call (h : Appended granted pushes called) (ht : t ∉ granted)
    (hno : ∀ p ∈ called, p.1 ≠ t) (v : Int) : Appended granted pushes (called ++ [(t, v)]) where
  blocks := h.blocks
  once p hp := by
    rcases List.mem_append.1 hp with hp | hp
    · exact h.once p hp
    · rw [List.mem_singleton.1 hp, if_neg ht]
      exact h.filter_eq_nil ht
  distinct p hp q hq he := by
    rcases List.mem_append.1 hp with hp | hp <;> rcases List.mem_append.1 hq with hq | hq
    · exact h.distinct p hp q hq he
    · rw [List.mem_singleton.1 hq] at he
      exact absurd he (hno p hp)
    · rw [List.mem_singleton.1 hp] at he
      exact absurd he.symm (hno q hq)
    · rw [List.mem_singleton.1 hp, List.mem_singleton.1 hq]

end Appended

end Sparring.GuardedList
