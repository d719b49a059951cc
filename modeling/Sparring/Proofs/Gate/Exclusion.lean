import Sparring.Proofs.Gate.Guarded

/-!
# One at a time behind the gate

What holds of a guarded list after any row of steps (`exclusive_account`). One visitor at most is
inside, and none while a call appends its value. The gate is held exactly while somebody is inside
or is to notice that the gate was handed over, so no waiter is ever stranded. Access is given in the
order in which the tickets first asked, leaving out those that were given up, and what has been
appended stands in this order, too.

Every step is put together from a few things that can happen to a ticket: its party goes
(`Kept.remove`), it is issued (`Kept.addVisitor`, `Kept.addCall`), and it asks (`Kept.pollVisitor`,
`Kept.pollCall`). `Kept` is what they keep.
-/

namespace Sparring.GuardedList

/-! ## Asking -/

section Asking

variable {g : GuardedList} {who : String} {t : Ticket} {v : Int}

theorem pollVisitor_eq (ht : g.visitors.lookup who = some t) :
    g.pollVisitor who =
      (if (g.gate.poll t).1 then .inside else .waiting, { g with gate := (g.gate.poll t).2 }) := by
  simp [pollVisitor, ht]

theorem pollCall_of_refused (hp : g.calls.lookup who = some (t, v))
    (hpoll : (g.gate.poll t).1 = false) :
    g.pollCall who = (.waiting, { g with gate := (g.gate.poll t).2 }) := by
  unfold pollCall
  simp only [hp]
  split
  next hpair => simp [hpair]
  next hpair => simp [hpair] at hpoll

theorem pollCall_of_letIn (hp : g.calls.lookup who = some (t, v))
    (hpoll : (g.gate.poll t).1 = true) :
    g.pollCall who = (.length (g.items ++ [v]).length,
      { g with
        gate := (g.gate.poll t).2.leave t
        items := g.items ++ [v]
        calls := without who g.calls }) := by
  unfold pollCall
  simp only [hp]
  split
  next hpair => simp [hpair] at hpoll
  next hpair => simp [hpair]

/-- To try a gate that nobody has is to enter it. -/
theorem tryEnter_of_free (hfree : g.gate.isHeld = false) (who : String) :
    g.perform (.tryEnter who) = g.perform (.enter who) := by
  obtain ⟨gate, items, visitors, calls, tickets⟩ := g
  cases gate with
  | held => cases hfree
  | free =>
    have hgone : (GuardedList.mk .free items visitors calls tickets).removeVisitor who =
        ⟨.free, items, without who visitors, calls, tickets⟩ := by
      unfold removeVisitor
      split
      next hl =>
        have hkeep : without who visitors = visitors := List.filter_eq_self.2 fun p hp => by
          have hne : (who != p.1) = true := by simpa using List.lookup_eq_none_iff.1 hl p hp
          exact decide_eq_true (Ne.symm (by simpa using hne))
        rw [hkeep]
      next => rfl
    simp [perform, addVisitor, hgone, pollVisitor, Gate.tryEnter, Gate.poll]

theorem tryEnter_of_held (hheld : g.gate.isHeld = true) (who : String) :
    g.perform (.tryEnter who) = (.refused, g) := by
  obtain ⟨gate, items, visitors, calls, tickets⟩ := g
  cases gate with
  | held => rfl
  | free => cases hheld

end Asking

/-! ## What every step keeps -/

/-- How a guarded list stands to the items it began with and to what has happened to it. -/
structure Kept (items : List Int) (g : GuardedList) (asked dropped granted : List Ticket)
    (pushes called : List (Ticket × Int)) : Prop where
  roster : Roster g.gate g.ticket? g.tickets asked dropped granted
  appended : Appended granted pushes called
  items_eq : g.items = items ++ pushes.map (·.2)
  call_called : ∀ who p, g.calls.lookup who = some p → p ∈ called
  visitor_not_called : ∀ who t, g.visitors.lookup who = some t → ∀ p ∈ called, p.1 ≠ t
  called_fresh : ∀ p ∈ called, p.1 < g.tickets
  /-- Between two steps no call has access. -/
  call_outside : ∀ who t, g.ticket? (.call who) = some t → g.gate.hasAccess t = false

namespace Kept

theorem new (items : List Int) : Kept items (new items) [] [] [] [] [] where
  roster := .new _ fun a => by cases a <;> rfl
  appended := ⟨rfl, by simp, by simp⟩
  items_eq := (List.append_nil items).symm
  call_called who p h := by cases h
  visitor_not_called who t h := by cases h
  called_fresh p h := by cases h
  call_outside who t h := by cases h

variable {items : List Int} {g : GuardedList} {asked dropped granted : List Ticket}
  {pushes called : List (Ticket × Int)} {a : Party} {who : String} {t : Ticket} {v : Int}

theorem nodup (h : Kept items g asked dropped granted pushes called) : granted.Nodup :=
  (List.nodup_append'.1 h.roster.nodup_granted).1

/-- Whoever waits for access has not been let in. -/
theorem not_granted (h : Kept items g asked dropped granted pushes called)
    (ha : g.ticket? a = some t) (hacc : g.gate.hasAccess t = false) : t ∉ granted := by
  intro ht
  rw [h.roster.hasAccess_of_granted ha ht] at hacc
  cases hacc

theorem not_granted_next (h : Kept items g asked dropped granted pushes called) :
    g.tickets ∉ granted := fun ht =>
  Nat.lt_irrefl _ (h.roster.asked_fresh _ (h.roster.mem_asked_of_granted ht))

theorem hasAccess_next (h : Kept items g asked dropped granted pushes called) :
    g.gate.hasAccess g.tickets = false := by
  rw [← Bool.not_eq_true]
  intro hacc
  exact Nat.lt_irrefl _ (h.roster.asked_fresh _ (h.roster.known _ (Or.inl hacc)).1)

theorem remove (h : Kept items g asked dropped granted pushes called) (a : Party) :
    Kept items (g.remove a) asked (dropped ++ g.outsider a) granted pushes called := by
  have hlookup : ∀ b u, (g.remove a).ticket? b = some u → g.ticket? b = some u := by
    intro b u hb
    rw [ticket?_remove, Function.update_apply] at hb
    split at hb
    · cases hb
    · exact hb
  cases ht : g.ticket? a with
  | none =>
    rw [remove_of_none ht]
    simpa [outsider, ht] using h
  | some t =>
    have hroster := h.roster.drop ht
    refine ⟨?_, h.appended, (g.items_remove a).trans h.items_eq, ?_, ?_, ?_, ?_⟩
    · rw [gate_remove ht, ticket?_remove, tickets_remove, outsider, ht]
      cases hacc : g.gate.hasAccess t <;> simpa [hacc] using hroster
    · intro who p hp
      rw [call_remove] at hp
      split at hp
      · cases hp
      · exact h.call_called who p hp
    · intro who u hu
      exact h.visitor_not_called who u (hlookup (.visitor who) u hu)
    · rw [tickets_remove]
      exact h.called_fresh
    · intro who u hu
      rw [gate_remove ht, ← Bool.not_eq_true, Gate.hasAccess_leave_iff]
      rintro ⟨hacc, -⟩
      rw [h.call_outside who u (hlookup (.call who) u hu)] at hacc
      cases hacc

theorem addVisitor (h : Kept items g asked dropped granted pushes called) (who : String) :
    Kept items (g.addVisitor who) asked (dropped ++ g.outsider (.visitor who)) granted pushes
      called := by
  have hgone := h.remove (.visitor who)
  have hfree : (g.remove (.visitor who)).ticket? (.visitor who) = none := by
    rw [ticket?_remove, Function.update_self]
  refine ⟨?_, h.appended, hgone.items_eq, hgone.call_called, ?_, ?_, hgone.call_outside⟩
  · have hissue := hgone.roster.issue hfree
    rw [ticket?_addVisitor, ← g.tickets_remove (.visitor who)]
    exact hissue
  · intro other t ht p hp
    have hcases : (g.addVisitor who).ticket? (.visitor other) = some t := ht
    rw [ticket?_addVisitor, Function.update_apply] at hcases
    split at hcases
    · cases hcases
      exact Nat.ne_of_lt (h.called_fresh p hp)
    · exact hgone.visitor_not_called other t hcases p hp
  · intro p hp
    exact Nat.lt_succ_of_lt (hgone.called_fresh p hp)

theorem addCall (h : Kept items g asked dropped granted pushes called) (who : String)
    (value : Int) :
    Kept items (g.addCall who value) asked (dropped ++ g.outsider (.call who)) granted pushes
      (called ++ [(g.tickets, value)]) := by
  have hgone := h.remove (.call who)
  have htickets := g.tickets_remove (.call who)
  have hfree : (g.remove (.call who)).ticket? (.call who) = none := by
    rw [ticket?_remove, Function.update_self]
  have hnext : ∀ p ∈ called, p.1 ≠ g.tickets := fun p hp => Nat.ne_of_lt (h.called_fresh p hp)
  refine ⟨?_, h.appended.call h.not_granted_next hnext value, hgone.items_eq, ?_, ?_, ?_, ?_⟩
  -- Whatever had the name is gone, so the call gets a ticket of its own.
  · have hissue := hgone.roster.issue hfree
    rw [ticket?_addCall, ← htickets]
    exact hissue
  · intro other p hp
    have hlookup : (g.addCall who value).calls.lookup other =
        if other == who then some ((g.remove (.call who)).tickets, value)
        else (g.remove (.call who)).calls.lookup other := by
      cases hw : other == who <;>
        simp [GuardedList.addCall, GuardedList.remove, List.lookup_cons, hw]
    rw [hlookup, htickets] at hp
    split at hp
    · cases hp
      simp
    · exact List.mem_append_left _ (hgone.call_called other p hp)
  · intro other t ht p hp
    rcases List.mem_append.1 hp with hp | hp
    · exact hgone.visitor_not_called other t ht p hp
    · rw [List.mem_singleton.1 hp]
      have hvisitor : (g.remove (.call who)).visitors.lookup other = some t := ht
      rw [visitor_remove, if_neg Party.noConfusion] at hvisitor
      exact (Nat.ne_of_lt (h.roster.fresh (.visitor other) t hvisitor)).symm
  · intro p hp
    rcases List.mem_append.1 hp with hp | hp
    · exact Nat.lt_succ_of_lt (hgone.called_fresh p hp)
    · rw [List.mem_singleton.1 hp, ← htickets]
      exact Nat.lt_succ_self _
  · intro other t ht
    have hcases := ht
    rw [ticket?_addCall, Function.update_apply] at hcases
    split at hcases
    · cases hcases
      rw [← htickets]
      exact hgone.hasAccess_next
    · exact hgone.call_outside other t hcases

theorem pollVisitor (h : Kept items g asked dropped granted pushes called)
    (ht : g.visitors.lookup who = some t) :
    Kept items (g.pollVisitor who).2 (note asked t) dropped
      (granted ++ if (g.gate.poll t).1 && !g.gate.hasAccess t then [t] else []) pushes called := by
  have hstate : (g.pollVisitor who).2 = { g with gate := (g.gate.poll t).2 } := by
    rw [pollVisitor_eq ht]
  have hholds : g.ticket? (.visitor who) = some t := ht
  have houtside : ∀ other u, g.ticket? (.call other) = some u →
      (g.gate.poll t).2.hasAccess u = false := by
    intro other u hu
    rw [← Bool.not_eq_true, Gate.hasAccess_poll_iff]
    rintro (hacc | ⟨-, rfl⟩)
    · rw [h.call_outside other u hu] at hacc
      cases hacc
    · cases h.roster.single _ _ _ hholds hu
  rw [hstate]
  cases hpoll : (g.gate.poll t).1 with
  | false =>
    simp only [Bool.false_and, Bool.false_eq_true, if_false, List.append_nil]
    exact ⟨h.roster.refuse hholds hpoll, h.appended, h.items_eq, h.call_called,
      h.visitor_not_called, h.called_fresh, houtside⟩
  | true =>
    -- A visitor who asks again is not let in a second time.
    cases hacc : g.gate.hasAccess t with
    | true =>
      simp only [Bool.not_true, Bool.and_false, Bool.false_eq_true, if_false, List.append_nil]
      exact ⟨h.roster.stay hacc, h.appended, h.items_eq, h.call_called, h.visitor_not_called,
        h.called_fresh, houtside⟩
    | false =>
      simp only [Bool.not_false, Bool.and_self, if_true]
      exact ⟨h.roster.grant hholds hacc hpoll,
        h.appended.grant (h.not_granted hholds hacc) (h.visitor_not_called who t ht), h.items_eq,
        h.call_called, h.visitor_not_called, h.called_fresh, houtside⟩

theorem pollCall (h : Kept items g asked dropped granted pushes called)
    (hp : g.calls.lookup who = some (t, v)) :
    Kept items (g.pollCall who).2 (note asked t) dropped
      (granted ++ if (g.gate.poll t).1 then [t] else [])
      (pushes ++ if (g.gate.poll t).1 then [(t, v)] else []) called := by
  have hholds : g.ticket? (.call who) = some t := by simp [ticket?, hp]
  have hacc := h.call_outside who t hholds
  cases hpoll : (g.gate.poll t).1 with
  | false =>
    simp only [Bool.false_eq_true, if_false, List.append_nil]
    rw [pollCall_of_refused hp hpoll]
    refine ⟨h.roster.refuse hholds hpoll, h.appended, h.items_eq, h.call_called,
      h.visitor_not_called, h.called_fresh, ?_⟩
    intro other u hu
    exact (Gate.hasAccess_poll_of_refused hpoll).trans (h.call_outside other u hu)
  | true =>
    have hinside := Gate.hasAccess_poll hpoll
    have hgrant := h.roster.grant hholds hacc hpoll
    -- A call that is let in is done at once, and gives its ticket up.
    have hdrop := hgrant.drop hholds
    rw [if_pos hinside, List.append_nil] at hdrop
    have hticket : ({ g with calls := without who g.calls } : GuardedList).ticket? =
        Function.update g.ticket? (.call who) none := by
      funext b
      rw [Function.update_apply]
      cases b with
      | visitor other => simp [ticket?]
      | call other =>
        simp only [ticket?, without, lookup_filter_ne, Party.call.injEq]
        split <;> rfl
    have hcalls : ∀ other p, (without who g.calls).lookup other = some p →
        g.calls.lookup other = some p := by
      intro other p hother
      rw [without, lookup_filter_ne] at hother
      split at hother
      · cases hother
      · exact hother
    simp only [if_true]
    rw [pollCall_of_letIn hp hpoll]
    refine ⟨?_, h.appended.complete ?_ (h.call_called who _ hp), ?_, ?_, h.visitor_not_called,
      h.called_fresh, ?_⟩
    · exact hticket ▸ hdrop
    · exact (List.nodup_append'.1 hgrant.nodup_granted).1
    · simp [h.items_eq]
    · intro other p hother
      exact h.call_called other p (hcalls other p hother)
    · intro other u hu
      exact Gate.hasAccess_leave hinside

theorem push (h : Kept items g asked dropped granted pushes called)
    (ht : g.visitors.lookup who = some t) (hacc : g.gate.hasAccess t = true) (v : Int) :
    Kept items { g with items := g.items ++ [v] } asked dropped granted (pushes ++ [(t, v)])
      called where
  roster := h.roster
  appended := h.appended.push h.nodup (h.roster.last t hacc) (h.visitor_not_called who t ht) v
  items_eq := by simp [h.items_eq]
  call_called := h.call_called
  visitor_not_called := h.visitor_not_called
  called_fresh := h.called_fresh
  call_outside := h.call_outside

theorem enter (h : Kept items g asked dropped granted pushes called) (who : String) :
    Kept items (g.advance (.enter who)) (note asked g.tickets)
      (dropped ++ g.outsider (.visitor who)) (granted ++ g.granting (.enter who)) pushes
      called := by
  have hnew : (g.addVisitor who).visitors.lookup who = some g.tickets := by
    have hticket := congrFun (g.ticket?_addVisitor who) (.visitor who)
    rwa [Function.update_self] at hticket
  have hacc : (g.addVisitor who).gate.hasAccess g.tickets = false := by
    have hnext := (h.remove (.visitor who)).hasAccess_next
    rwa [tickets_remove] at hnext
  have hpoll := (h.addVisitor who).pollVisitor hnew
  have hgranting : g.granting (.enter who) =
      if ((g.addVisitor who).gate.poll g.tickets).1 &&
        !(g.addVisitor who).gate.hasAccess g.tickets then [g.tickets] else [] := by
    unfold granting
    simp only [perform, pollVisitor_eq hnew, asking, hacc]
    cases ((g.addVisitor who).gate.poll g.tickets).1 <;> simp [h.hasAccess_next]
  rw [hgranting]
  exact hpoll

theorem call (h : Kept items g asked dropped granted pushes called) (who : String)
    (value : Int) :
    Kept items (g.advance (.call who value)) (note asked g.tickets)
      (dropped ++ g.outsider (.call who)) (granted ++ g.granting (.call who value))
      (pushes ++ g.pushing (.call who value)) (called ++ [(g.tickets, value)]) := by
  have hnew := g.lookup_addCall who value
  have hpoll := (h.addCall who value).pollCall hnew
  cases hin : ((g.addCall who value).gate.poll g.tickets).1 with
  | false =>
    have hperform := pollCall_of_refused hnew hin
    simp only [hin, Bool.false_eq_true, if_false] at hpoll
    simpa [granting, pushing, ← Gate.poll_eq_admits, hin, perform, hperform, advance] using hpoll
  | true =>
    have hperform := pollCall_of_letIn hnew hin
    simp only [hin, if_true] at hpoll
    have hgranting : g.granting (.call who value) = [g.tickets] := by
      simp [granting, perform, hperform, asking, h.hasAccess_next]
    have hpushing : g.pushing (.call who value) = [(g.tickets, value)] := by
      simp [pushing, ← Gate.poll_eq_admits, hin]
    rw [hgranting, hpushing]
    exact hpoll

/-- Whether a step keeps the account, with what it shows. -/
def Keeps (items : List Int) (g : GuardedList) (asked dropped granted : List Ticket)
    (pushes called : List (Ticket × Int)) (step : Step) : Prop :=
  Kept items (g.advance step) ((g.asking step).foldl note asked) (dropped ++ g.dropping step)
    (granted ++ g.granting step) (pushes ++ g.pushing step) (called ++ g.calling step)

theorem keeps_poll (h : Kept items g asked dropped granted pushes called) (who : String) :
    Keeps items g asked dropped granted pushes called (.poll who) := by
  unfold Keeps
  cases ht : g.visitors.lookup who with
  | none =>
    simpa [advance, perform, GuardedList.pollVisitor, ht, asking, ticket?, dropping, leaving,
      granting, pushing, calling] using h
  | some t =>
    have hpoll := h.pollVisitor ht
    have hgranting : g.granting (.poll who) =
        if (g.gate.poll t).1 && !g.gate.hasAccess t then [t] else [] := by
      unfold granting
      simp only [perform, pollVisitor_eq ht, asking, ticket?, ht]
      cases (g.gate.poll t).1 <;> cases hacc : g.gate.hasAccess t <;> simp [hacc]
    rw [hgranting]
    simpa [advance, perform, asking, ticket?, ht, dropping, leaving, pushing, calling] using hpoll

theorem keeps_tryEnter (h : Kept items g asked dropped granted pushes called) (who : String) :
    Keeps items g asked dropped granted pushes called (.tryEnter who) := by
  unfold Keeps
  cases hheld : g.gate.isHeld with
  | true =>
    simpa [advance, tryEnter_of_held hheld, asking, hheld, dropping, leaving, granting, pushing,
      calling] using h
  | false =>
    have henter := h.enter who
    have hsame := tryEnter_of_free hheld who
    have hgranting : g.granting (.tryEnter who) = g.granting (.enter who) := by
      simp [granting, hsame, asking, hheld]
    have hadvance : g.advance (.tryEnter who) = g.advance (.enter who) := congrArg Prod.snd hsame
    rw [hgranting, hadvance]
    simpa [asking, hheld, dropping, leaving, pushing, calling] using henter

theorem keeps_push (h : Kept items g asked dropped granted pushes called) (who : String)
    (value : Int) : Keeps items g asked dropped granted pushes called (.push who value) := by
  unfold Keeps
  cases hin : g.isInside who with
  | false =>
    simpa [advance, perform, hin, asking, dropping, leaving, granting, pushing, calling] using h
  | true =>
    obtain ⟨t, ht, hacc⟩ := (Option.any_eq_true _ _).1 hin
    have hpush := h.push ht hacc value
    simpa [advance, perform, hin, asking, dropping, leaving, granting, pushing, calling, ticket?,
      ht] using hpush

theorem keeps_pollCall (h : Kept items g asked dropped granted pushes called) (who : String) :
    Keeps items g asked dropped granted pushes called (.pollCall who) := by
  unfold Keeps
  cases hp : g.calls.lookup who with
  | none =>
    simpa [advance, perform, GuardedList.pollCall, hp, asking, ticket?, dropping, leaving,
      granting, pushing, calling] using h
  | some p =>
    obtain ⟨t, v⟩ := p
    have hpoll := h.pollCall hp
    cases hin : (g.gate.poll t).1 with
    | false =>
      have hperform := pollCall_of_refused hp hin
      simp only [hin, Bool.false_eq_true, if_false] at hpoll
      simpa [advance, perform, hperform, asking, ticket?, hp, dropping, leaving, granting,
        pushing, ← Gate.poll_eq_admits, hin, calling] using hpoll
    | true =>
      have hperform := pollCall_of_letIn hp hin
      have hacc := h.call_outside who t (by simp [ticket?, hp])
      simp only [hin, if_true] at hpoll
      simpa [advance, perform, hperform, asking, ticket?, hp, hacc, dropping, leaving, granting,
        pushing, ← Gate.poll_eq_admits, hin, calling] using hpoll

/-- A step keeps the account, with what it shows. -/
theorem step (h : Kept items g asked dropped granted pushes called) (step : Step) :
    Keeps items g asked dropped granted pushes called step := by
  -- Every step is made of arrivals, departures, askings and appendings, and each of these is kept.
  cases step with
  | poll who => exact h.keeps_poll who
  | tryEnter who => exact h.keeps_tryEnter who
  | push who value => exact h.keeps_push who value
  | pollCall who => exact h.keeps_pollCall who
  | arrive who =>
    have harrive := h.addVisitor who
    simpa [Keeps, advance, perform, asking, dropping, leaving, granting, pushing, calling]
      using harrive
  | enter who =>
    have henter := h.enter who
    simpa [Keeps, asking, dropping, leaving, pushing, calling] using henter
  | leave who =>
    have hgone := h.remove (.visitor who)
    simpa [Keeps, advance, perform, GuardedList.remove, asking, dropping, leaving, granting,
      pushing, calling] using hgone
  | read who =>
    have hgranting : g.granting (.read who) = [] := by
      unfold granting
      simp only [perform]
      split <;> rfl
    rw [Keeps, hgranting]
    simpa [advance, perform, asking, dropping, leaving, pushing, calling] using h
  | arriveCall who value =>
    have harrive := h.addCall who value
    simpa [Keeps, advance, perform, asking, dropping, leaving, granting, pushing, calling]
      using harrive
  | call who value =>
    have hcall := h.call who value
    simpa [Keeps, asking, dropping, leaving, calling] using hcall
  | dropCall who =>
    have hgone := h.remove (.call who)
    simpa [Keeps, advance, perform, GuardedList.remove, asking, dropping, leaving, granting,
      pushing, calling] using hgone

end Kept

/-! ## Rows of steps -/

section Rows

variable (g : GuardedList) (steps : List Step)

/-- The tickets that have asked, in the order in which each first did. -/
def asked : List Ticket := (observe advance asking g steps).eraseDups

/-- The tickets that were given up without having been let in. -/
def dropped : List Ticket := observe advance dropping g steps

/-- The tickets that have been let in, in order. -/
def granted : List Ticket := observe advance granting g steps

/-- What has been appended, in order, with the tickets of those who did it. -/
def pushes : List (Ticket × Int) := observe advance pushing g steps

/-- The calls that have arrived, with the values that they are to append. -/
def called : List (Ticket × Int) := observe advance calling g steps

end Rows

theorem eraseDups_append_note (xs ts : List Ticket) :
    (xs ++ ts).eraseDups = ts.foldl note xs.eraseDups := by
  induction ts using List.reverseRecOn with
  | nil => simp
  | append_singleton ts t ih =>
    rw [List.foldl_append, ← ih, ← List.append_assoc, eraseDups_concat]
    rfl

theorem kept_after (items : List Int) (steps : List Step) :
    Kept items ((new items).after steps) (asked (new items) steps) (dropped (new items) steps)
      (granted (new items) steps) (pushes (new items) steps) (called (new items) steps) := by
  induction steps using List.reverseRecOn with
  | nil => exact .new items
  | append_singleton steps step ih =>
    have hstep := ih.step step
    simp only [asked, dropped, granted, pushes, called, observe_concat, eraseDups_append_note]
    rw [after, List.foldl_append]
    exact hstep

/-! ## The account -/

/-- The step in which a party goes. -/
def exit : Party → Step
  | .visitor who => .leave who
  | .call who => .dropCall who

theorem advance_exit (g : GuardedList) (a : Party) : g.advance (exit a) = g.remove a := by
  cases a <;> rfl

/-- A step in which a call asks. -/
def Step.isCall : Step → Bool
  | .call .. | .pollCall _ => true
  | _ => false

/-- What a row of steps says about a list that began with `items`, if it has led to `g`, and these
are the tickets that have asked, that were given up before they were let in and that have been let
in, what has been appended, and the calls that have arrived. -/
structure Account (items : List Int) (g : GuardedList) (asked dropped granted : List Ticket)
    (pushes called : List (Ticket × Int)) : Prop where
  /-- One visitor at most is inside. -/
  alone : ∀ who other, g.isInside who = true → g.isInside other = true → who = other
  /-- No call is, between two steps. -/
  call_outside : ∀ who t, g.ticket? (.call who) = some t → g.gate.hasAccess t = false
  /-- When a call is let in, nobody is inside, and nobody is when it is done. -/
  brief : ∀ step n, step.isCall = true → (g.perform step).1 = .length n →
    ∀ who, g.isInside who = false ∧ (g.advance step).isInside who = false
  /-- The gate is held if somebody is inside, or somebody who asked before is to notice that it was
  handed over, and only then. -/
  held : g.gate.isHeld = true ↔ (∃ who, g.isInside who = true) ∨
    ∃ a t, g.ticket? a = some t ∧ g.gate.holder? = some t ∧ g.gate.hasAccess t = false ∧
      t ∈ asked ∧ t ∉ granted
  /-- While the gate is not held, nobody who has asked waits. -/
  idle : g.gate.isHeld = false → g.gate.queue = [] ∧ ∀ a t, g.ticket? a = some t → t ∉ asked
  /-- Of those who have asked and were not given up, the first ones have been let in, and the others
  stand in the line. -/
  order : asked.filter (· ∉ dropped) = granted ++ g.gate.line
  /-- Nobody has been let in twice. -/
  nodup : granted.Nodup
  /-- The line are those who have asked, have not been let in and are still there. -/
  line : ∀ t, t ∈ g.gate.line ↔ t ∈ asked ∧ t ∉ granted ∧ ∃ a, g.ticket? a = some t
  /-- To try a gate that is held is in vain. -/
  tried : g.gate.isHeld = true → ∀ who, g.perform (.tryEnter who) = (.refused, g)
  /-- To try one that is not is to enter, and overtakes nobody. -/
  entered : g.gate.isHeld = false → ∀ who,
    (g.perform (.tryEnter who)).1 = .inside ∧ g.gate.line = []
  /-- Whoever has the gate, or finds it free, is let in when it asks, and nobody else is. -/
  visitor_asks : ∀ who t, g.visitors.lookup who = some t →
    ((g.perform (.poll who)).1 = .inside ↔ g.gate.isHeld = false ∨ g.gate.holder? = some t)
  call_asks : ∀ who t v, g.calls.lookup who = some (t, v) →
    ((∃ n, (g.perform (.pollCall who)).1 = .length n) ↔
      g.gate.isHeld = false ∨ g.gate.holder? = some t)
  /-- Whoever goes gives up its place, and the others keep theirs. -/
  goes : ∀ a t, g.ticket? a = some t →
    (g.advance (exit a)).gate.line = g.gate.line.filter (· ≠ t)
  /-- If the gate was handed to it or it was inside, the gate passes to the next one. -/
  passes : ∀ a t, g.ticket? a = some t → g.gate.holder? = some t →
    (g.advance (exit a)).gate.holder? = g.gate.queue.head? ∧
      (g.advance (exit a)).gate.queue = g.gate.queue.tail
  /-- The list is the initial one and what has been appended. -/
  items_eq : g.items = items ++ pushes.map (·.2)
  /-- What has been appended comes in blocks, one for each one that has been let in. -/
  blocks : pushes = granted.flatMap fun t => pushes.filter (·.1 = t)
  /-- A call appends its value once, if it is let in. -/
  once : ∀ p ∈ called, pushes.filter (·.1 = p.1) = if p.1 ∈ granted then [p] else []
  /-- A visitor inside appends what it pushes, and is told the length of the list with it. -/
  push_inside : ∀ who value, g.isInside who = true →
    (g.advance (.push who value)).items = g.items ++ [value] ∧
      (g.perform (.push who value)).1 = .length (g.items.length + 1)
  /-- Whoever pushes and is not inside is told so, and nothing changes. -/
  push_outside : ∀ who value, g.isInside who = false →
    g.perform (.push who value) = (.outside, g)
  /-- A call that is let in appends its value, is told the length of the list with it, and is
  done. -/
  call_done : ∀ who t v, g.calls.lookup who = some (t, v) →
    g.gate.isHeld = false ∨ g.gate.holder? = some t →
      (g.advance (.pollCall who)).items = g.items ++ [v] ∧
        (g.perform (.pollCall who)).1 = .length (g.items.length + 1) ∧
        (g.advance (.pollCall who)).calls.lookup who = none
  /-- Nothing else becomes of the list. -/
  appends : ∀ step, (g.advance step).items = g.items ++ (g.pushing step).map (·.2)
  /-- Whoever has appended a value is told the length after it, and nobody else is told one. -/
  lengths : ∀ step n, (g.perform step).1 = .length n ↔
    n = (g.advance step).items.length ∧ ∃ p, g.pushing step = [p]

/-! ### Lengths -/

section Lengths

variable {g : GuardedList} {step : Step} {n : Nat}

theorem isInside_iff {who : String} : g.isInside who = true ↔
    ∃ t, g.visitors.lookup who = some t ∧ g.gate.hasAccess t = true :=
  Option.any_eq_true _ _

/-- A call that asks is told the length of the list, or that it has to wait, or nothing at all. -/
theorem pollCall_cases (g : GuardedList) (who : String) :
    (g.calls.lookup who = none ∧ g.pollCall who = (.unknown, g)) ∨
      ∃ t v, g.calls.lookup who = some (t, v) ∧
        ((g.gate.poll t).1 = false ∧ (g.pollCall who).1 = .waiting ∧
            (g.pollCall who).2.items = g.items ∨
          (g.gate.poll t).1 = true ∧ (g.pollCall who).1 = .length (g.items ++ [v]).length ∧
            (g.pollCall who).2.items = g.items ++ [v]) := by
  cases hp : g.calls.lookup who with
  | none => exact Or.inl ⟨rfl, by simp [pollCall, hp]⟩
  | some p =>
    obtain ⟨t, v⟩ := p
    refine Or.inr ⟨t, v, rfl, ?_⟩
    cases hin : (g.gate.poll t).1 with
    | false =>
      rw [pollCall_of_refused hp hin]
      exact Or.inl ⟨rfl, rfl, rfl⟩
    | true =>
      rw [pollCall_of_letIn hp hin]
      exact Or.inr ⟨rfl, rfl, rfl⟩

theorem pollVisitor_ne_length (g : GuardedList) (who : String) (n : Nat) :
    (g.pollVisitor who).1 ≠ .length n := by
  unfold pollVisitor
  split
  · exact Report.noConfusion
  · simp only
    split <;> exact Report.noConfusion

/-- What becomes of the list in a step, and what is told about it. -/
inductive Appends (g : GuardedList) (step : Step) : Prop
  /-- The list stays as it is, and no length is told. -/
  | quiet : (g.advance step).items = g.items → (∀ n, (g.perform step).1 ≠ .length n) →
    g.pushing step = [] → Appends g step
  /-- A value is appended, and the length is told. -/
  | told (p : Ticket × Int) : (g.advance step).items = g.items ++ [p.2] →
    (g.perform step).1 = .length (g.items ++ [p.2]).length → g.pushing step = [p] →
    Appends g step

theorem Appends.items_eq (h : Appends g step) :
    (g.advance step).items = g.items ++ (g.pushing step).map (·.2) := by
  cases h with
  | quiet hitems _ hpushing => rw [hitems, hpushing, List.map_nil, List.append_nil]
  | told p hitems _ hpushing => rw [hitems, hpushing, List.map_singleton]

theorem Appends.length_iff (h : Appends g step) : (g.perform step).1 = .length n ↔
    n = (g.advance step).items.length ∧ ∃ p, g.pushing step = [p] := by
  cases h with
  | quiet _ hquiet hpushing =>
    refine iff_of_false (hquiet n) ?_
    rintro ⟨-, p, hp⟩
    cases hpushing.symm.trans hp
  | told p hitems hreport hpushing =>
    rw [hreport, hitems, Report.length.injEq, eq_comm]
    exact (and_iff_left ⟨p, hpushing⟩).symm

theorem appends_tryEnter (g : GuardedList) (who : String) : Appends g (.tryEnter who) := by
  cases hheld : g.gate.isHeld with
  | true =>
    have hrefused := tryEnter_of_held hheld who
    refine .quiet (by simp [advance, hrefused]) (fun n => ?_) rfl
    rw [hrefused]
    exact Report.noConfusion
  | false =>
    have henter := tryEnter_of_free hheld who
    have hitems : (g.advance (.tryEnter who)).items = g.items := by
      rw [advance, henter]
      simp [perform]
    refine .quiet hitems (fun n => ?_) rfl
    rw [henter]
    exact pollVisitor_ne_length _ _ _

theorem perform_push_of_inside {who : String} (hin : g.isInside who = true) (value : Int) :
    g.perform (.push who value) =
      (.length (g.items ++ [value]).length, { g with items := g.items ++ [value] }) := by
  simp [perform, hin]

theorem perform_push_of_outside {who : String} (hout : g.isInside who = false) (value : Int) :
    g.perform (.push who value) = (.outside, g) := by
  simp [perform, hout]

theorem appends_push (g : GuardedList) (who : String) (value : Int) :
    Appends g (.push who value) := by
  cases hin : g.isInside who with
  | false =>
    have hperform := perform_push_of_outside hin value
    refine .quiet (by simp [advance, hperform]) (fun n => ?_) (by simp [pushing, hin])
    rw [hperform]
    exact Report.noConfusion
  | true =>
    obtain ⟨t, ht, -⟩ := isInside_iff.1 hin
    have hperform := perform_push_of_inside hin value
    refine .told (t, value) (by simp [advance, hperform]) (by rw [hperform]) ?_
    simp [pushing, hin, ticket?, ht]

theorem appends_call (g : GuardedList) (who : String) (value : Int) :
    Appends g (.call who value) := by
  have hlookup := g.lookup_addCall who value
  rcases (g.addCall who value).pollCall_cases who with ⟨hp, -⟩ | ⟨t, v, hp, hcase⟩
  · cases hp.symm.trans hlookup
  · cases hp.symm.trans hlookup
    rw [items_addCall] at hcase
    rcases hcase with ⟨hout, hreport, hitems⟩ | ⟨hin, hreport, hitems⟩
    · rw [Gate.poll_eq_admits] at hout
      exact .quiet hitems (fun n h => by cases hreport.symm.trans h) (by simp [pushing, hout])
    · rw [Gate.poll_eq_admits] at hin
      exact .told (g.tickets, value) hitems hreport (by simp [pushing, hin])

theorem appends_pollCall (g : GuardedList) (who : String) : Appends g (.pollCall who) := by
  rcases g.pollCall_cases who with ⟨hp, hperform⟩ | ⟨t, v, hp, hcase⟩
  · refine .quiet (by simp [advance, perform, hperform]) (fun n h => ?_) (by simp [pushing, hp])
    simp only [perform, hperform] at h
    cases h
  · rcases hcase with ⟨hout, hreport, hitems⟩ | ⟨hin, hreport, hitems⟩
    · rw [Gate.poll_eq_admits] at hout
      exact .quiet hitems (fun n h => by cases hreport.symm.trans h) (by simp [pushing, hp, hout])
    · rw [Gate.poll_eq_admits] at hin
      exact .told (t, v) hitems hreport (by simp [pushing, hp, hin])

theorem appends_step (g : GuardedList) (step : Step) : Appends g step := by
  cases step with
  | arrive who => exact .quiet (g.items_addVisitor who) (fun _ => Report.noConfusion) rfl
  | arriveCall who value =>
    exact .quiet (g.items_addCall who value) (fun _ => Report.noConfusion) rfl
  | enter who =>
    exact .quiet (by simp [advance, perform]) (fun n => pollVisitor_ne_length _ _ n) rfl
  | poll who => exact .quiet (g.items_pollVisitor who) (fun n => pollVisitor_ne_length _ _ n) rfl
  | tryEnter who => exact g.appends_tryEnter who
  | leave who => exact .quiet (g.items_remove (.visitor who)) (fun _ => Report.noConfusion) rfl
  | dropCall who => exact .quiet (g.items_remove (.call who)) (fun _ => Report.noConfusion) rfl
  | push who value => exact g.appends_push who value
  | read who =>
    refine .quiet rfl (fun n h => ?_) rfl
    simp only [perform] at h
    split at h <;> cases h
  | call who value => exact g.appends_call who value
  | pollCall who => exact g.appends_pollCall who

end Lengths

/-! ### Access -/

namespace Kept

variable {items : List Int} {g : GuardedList} {asked dropped granted : List Ticket}
  {pushes called : List (Ticket × Int)} {a : Party} {who : String} {t : Ticket} {v : Int}

/-- Nobody is inside when a call is let in, and nobody is when it is done. -/
theorem brief_of_letIn (h : Kept items g asked dropped granted pushes called)
    (hp : g.calls.lookup who = some (t, v)) (hin : (g.gate.poll t).1 = true) (other : String) :
    g.isInside other = false ∧ (g.pollCall who).2.isInside other = false := by
  constructor
  · rw [← Bool.not_eq_true, isInside_iff]
    rintro ⟨u, hu, hacc⟩
    cases Gate.eq_of_poll hin hacc
    have hsame := h.roster.single (.visitor other) (.call who) t hu (by simp [ticket?, hp])
    cases hsame
  · rw [← Bool.not_eq_true, isInside_iff, pollCall_of_letIn hp hin]
    rintro ⟨u, -, hacc⟩
    rw [Gate.hasAccess_leave (Gate.hasAccess_poll hin)] at hacc
    cases hacc

theorem isInside_addCall (h : Kept items g asked dropped granted pushes called)
    (who other : String) (value : Int) :
    (g.addCall who value).isInside other = g.isInside other := by
  have hvisitors : (g.addCall who value).visitors.lookup other = g.visitors.lookup other := by
    have hremove := g.visitor_remove (.call who) other
    rwa [if_neg Party.noConfusion] at hremove
  rw [Bool.eq_iff_iff, isInside_iff, isInside_iff, hvisitors]
  refine exists_congr fun t => and_congr_right fun ht => ?_
  have hgate : (g.addCall who value).gate = (g.remove (.call who)).gate := rfl
  rw [hgate]
  cases hu : g.ticket? (.call who) with
  | none => rw [remove_of_none hu]
  | some u =>
    rw [gate_remove hu, Gate.hasAccess_leave_iff]
    refine and_iff_left_of_imp fun _ htu => ?_
    cases h.roster.single (.visitor other) (.call who) t ht (htu ▸ hu)

theorem brief (h : Kept items g asked dropped granted pushes called) {step : Step} {n : Nat}
    (hcall : step.isCall = true) (hlength : (g.perform step).1 = .length n) (who : String) :
    g.isInside who = false ∧ (g.advance step).isInside who = false := by
  cases step with
  | call other value =>
    have hnew := h.addCall other value
    rcases (g.addCall other value).pollCall_cases other with ⟨-, hperform⟩ | ⟨t, v, hp, hcase⟩
    · simp only [perform, hperform] at hlength
      cases hlength
    · rcases hcase with ⟨-, hreport, -⟩ | ⟨hin, -, -⟩
      · cases hreport.symm.trans hlength
      · have hbrief := hnew.brief_of_letIn hp hin who
        rwa [h.isInside_addCall] at hbrief
  | pollCall other =>
    rcases g.pollCall_cases other with ⟨-, hperform⟩ | ⟨t, v, hp, hcase⟩
    · simp only [perform, hperform] at hlength
      cases hlength
    · rcases hcase with ⟨-, hreport, -⟩ | ⟨hin, -, -⟩
      · cases hreport.symm.trans hlength
      · exact h.brief_of_letIn hp hin who
  | arrive | enter | poll | tryEnter | leave | push | read | arriveCall | dropCall => cases hcall

theorem mem_line_iff (h : Kept items g asked dropped granted pushes called) :
    t ∈ g.gate.line ↔ t ∈ asked ∧ t ∉ granted ∧ ∃ a, g.ticket? a = some t := by
  constructor
  · intro ht
    obtain ⟨hasked, ha⟩ := h.roster.known t (Or.inr ht)
    exact ⟨hasked, fun hgranted =>
      (List.nodup_append'.1 h.roster.nodup_granted).2.2 hgranted ht, ha⟩
  · rintro ⟨hasked, hgranted, a, ha⟩
    rcases h.roster.waits a t ha hasked with hacc | hline
    · exact absurd (List.mem_of_getLast? (h.roster.last t hacc)) hgranted
    · exact hline

/-- The holder is a visitor inside, or somebody who waits and is the first to do so. -/
theorem held_iff (h : Kept items g asked dropped granted pushes called) :
    g.gate.isHeld = true ↔ (∃ who, g.isInside who = true) ∨
      ∃ a t, g.ticket? a = some t ∧ g.gate.holder? = some t ∧ g.gate.hasAccess t = false ∧
        t ∈ asked ∧ t ∉ granted := by
  rw [Gate.isHeld_iff]
  constructor
  · rintro ⟨t, ht⟩
    rcases Gate.holder?_eq_some.1 ht with hacc | ⟨hno, hfirst⟩
    · obtain ⟨-, a, ha⟩ := h.roster.known t (Or.inl hacc)
      cases a with
      | visitor who => exact Or.inl ⟨who, isInside_iff.2 ⟨t, ha, hacc⟩⟩
      | call who =>
        rw [h.call_outside who t ha] at hacc
        cases hacc
    · have hline : t ∈ g.gate.line := List.mem_of_head? hfirst
      obtain ⟨hasked, hgranted, a, ha⟩ := h.mem_line_iff.1 hline
      exact Or.inr ⟨a, t, ha, ht, hno t, hasked, hgranted⟩
  · rintro (⟨who, hin⟩ | ⟨a, t, -, ht, -⟩)
    · obtain ⟨t, -, hacc⟩ := isInside_iff.1 hin
      exact ⟨t, Gate.holder?_eq_some.2 (Or.inl hacc)⟩
    · exact ⟨t, ht⟩

theorem accounted (h : Kept items g asked dropped granted pushes called) :
    Account items g asked dropped granted pushes called where
  alone who other hwho hother := by
    obtain ⟨t, ht, hacc⟩ := isInside_iff.1 hwho
    obtain ⟨u, hu, hacc'⟩ := isInside_iff.1 hother
    cases Gate.hasAccess_unique hacc hacc'
    have hsame := h.roster.single (.visitor who) (.visitor other) t ht hu
    exact Party.visitor.inj hsame
  call_outside := h.call_outside
  brief step n hcall hlength who := h.brief hcall hlength who
  held := h.held_iff
  idle hfree := by
    have hnobody := Gate.not_knows_of_not_held hfree
    refine ⟨?_, fun a t ha hasked => hnobody t (h.roster.waits a t ha hasked)⟩
    cases hgate : g.gate with
    | free => rfl
    | held =>
      rw [hgate] at hfree
      cases hfree
  order := h.roster.order
  nodup := h.nodup
  line t := h.mem_line_iff
  tried hheld who := tryEnter_of_held hheld who
  -- Nobody stands in the line of a gate that nobody has, so to try it is to enter it.
  entered hfree who := by
    have hline : g.gate.line = [] := List.eq_nil_iff_forall_not_mem.2 fun t ht =>
      Gate.not_knows_of_not_held hfree t (Or.inr ht)
    refine ⟨?_, hline⟩
    cases hgate : g.gate with
    | free => simp [perform, hgate, Gate.tryEnter]
    | held =>
      rw [hgate] at hfree
      cases hfree
  visitor_asks who t ht := by
    rw [← Gate.poll_eq_true]
    simp only [perform, pollVisitor_eq ht]
    cases (g.gate.poll t).1 <;> simp
  call_asks who t v hp := by
    rw [← Gate.poll_eq_true]
    simp only [perform]
    cases hin : (g.gate.poll t).1 with
    | false => simp [pollCall_of_refused hp hin]
    | true => simp [pollCall_of_letIn hp hin]
  goes a t ha := by
    rw [advance_exit, gate_remove ha, Gate.line_leave_of_proper h.roster.proper]
  passes a t ha ht := by
    rw [advance_exit, gate_remove ha]
    exact Gate.leave_of_holder ht
  items_eq := h.items_eq
  blocks := h.appended.blocks
  once := h.appended.once
  push_inside who value hin := by
    rw [advance, perform_push_of_inside hin]
    exact ⟨rfl, by simp⟩
  push_outside who value hout := perform_push_of_outside hout value
  call_done who t v hp hin := by
    rw [advance, perform, pollCall_of_letIn hp (Gate.poll_eq_true.2 hin)]
    refine ⟨rfl, by simp, ?_⟩
    have hgone := lookup_filter_ne who who g.calls
    rwa [if_pos rfl] at hgone
  appends step := (g.appends_step step).items_eq
  lengths step _ := (g.appends_step step).length_iff

end Kept

/-- Whatever is done to a guarded list, one at a time has access to it, in the order in which they
first asked, and it holds what they have appended. -/
theorem exclusive_account (items : List Int) (steps : List Step) :
    Account items ((new items).after steps) (asked (new items) steps) (dropped (new items) steps)
      (granted (new items) steps) (pushes (new items) steps) (called (new items) steps) :=
  (kept_after items steps).accounted

end Sparring.GuardedList
