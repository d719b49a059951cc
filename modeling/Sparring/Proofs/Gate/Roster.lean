import Mathlib.Logic.Function.Basic
import Sparring.Gate.Guarded
import Sparring.Proofs.Gate.Line

/-!
# The roster of a gate

Whoever comes to a guarded list holds a ticket, and the gate knows tickets only. A *roster* says
how a gate stands to the parties that hold tickets and to what has happened: which tickets have
asked, in the order in which each first did, which were given up before they were let in, and
which have been let in, in order.

The heart of it is the order (`Roster.order`): of the tickets that have asked and were not given up,
the first ones have been let in, and the others stand in the line, in this order. There is one lemma
for each thing that can happen: a ticket is given up (`Roster.drop`) or issued (`Roster.issue`), and
it asks in vain (`Roster.refuse`) or is let in (`Roster.grant`).
-/

namespace Sparring

/-- Who comes to a guarded list. Visitors and calls have separate names. -/
inductive Party where
  | visitor (who : String)
  | call (who : String)
deriving DecidableEq

/-- A ticket is noted when it asks for the first time. -/
def note (asked : List Ticket) (t : Ticket) : List Ticket :=
  if t ∈ asked then asked else asked ++ [t]

theorem mem_note {asked : List Ticket} {t u : Ticket} : u ∈ note asked t ↔ u ∈ asked ∨ u = t := by
  unfold note
  by_cases ht : t ∈ asked
  · have hu : u = t → u ∈ asked := fun he => he ▸ ht
    rw [if_pos ht]
    tauto
  · simp [ht]

theorem nodup_note {asked : List Ticket} {t : Ticket} (h : asked.Nodup) : (note asked t).Nodup := by
  unfold note
  by_cases ht : t ∈ asked
  · rwa [if_pos ht]
  · rw [if_neg ht]
    exact h.append (List.nodup_singleton t) (by simpa using ht)

/-- How a gate stands, if the parties hold these tickets, all of them below `issued`, and these
tickets have asked, were given up without having been let in, and have been let in. -/
structure Roster (gate : Gate Ticket) (holds : Party → Option Ticket) (issued : Nat)
    (asked dropped granted : List Ticket) : Prop where
  single : ∀ a b t, holds a = some t → holds b = some t → a = b
  fresh : ∀ a t, holds a = some t → t < issued
  asked_fresh : ∀ t ∈ asked, t < issued
  dropped_fresh : ∀ t ∈ dropped, t < issued
  nodup : asked.Nodup
  kept : ∀ a t, holds a = some t → t ∉ dropped
  /-- The gate knows tickets that have asked and that somebody holds, and all of these. -/
  known : ∀ t, gate.Knows t → t ∈ asked ∧ ∃ a, holds a = some t
  waits : ∀ a t, holds a = some t → t ∈ asked → gate.Knows t
  order : asked.filter (· ∉ dropped) = granted ++ gate.line
  last : ∀ t, gate.hasAccess t = true → granted.getLast? = some t

namespace Roster

theorem new (holds : Party → Option Ticket) (h : ∀ a, holds a = none) :
    Roster .free holds 0 [] [] [] where
  single a b t ha := by simp [h] at ha
  fresh a t ha := by simp [h] at ha
  asked_fresh t ht := by simp at ht
  dropped_fresh t ht := by simp at ht
  nodup := List.nodup_nil
  kept a t ha := by simp [h] at ha
  known t ht := absurd ht (Gate.not_knows_of_not_held rfl t)
  waits a t ha := by simp [h] at ha
  order := rfl
  last t ht := by simp [Gate.hasAccess] at ht

variable {gate : Gate Ticket} {holds : Party → Option Ticket} {issued : Nat}
  {asked dropped granted : List Ticket} {a : Party} {t : Ticket}

/-- Nobody has been let in twice, and nobody who has been let in still waits. -/
theorem nodup_granted (h : Roster gate holds issued asked dropped granted) :
    (granted ++ gate.line).Nodup := h.order ▸ h.nodup.filter _

theorem proper (h : Roster gate holds issued asked dropped granted) : gate.Proper where
  nodup := (List.nodup_append'.1 h.nodup_granted).2.1
  outside v hv hline := by
    have hgranted : v ∈ granted := List.mem_of_getLast? (h.last v hv)
    exact (List.nodup_append'.1 h.nodup_granted).2.2 hgranted hline

theorem mem_asked_of_granted (h : Roster gate holds issued asked dropped granted)
    (ht : t ∈ granted) : t ∈ asked := by
  have hmem : t ∈ asked.filter (· ∉ dropped) := by
    rw [h.order]
    exact List.mem_append_left _ ht
  exact (List.mem_filter.1 hmem).1

/-- A ticket that has been let in and that somebody holds has access. -/
theorem hasAccess_of_granted (h : Roster gate holds issued asked dropped granted)
    (ha : holds a = some t) (ht : t ∈ granted) : gate.hasAccess t = true := by
  rcases h.waits a t ha (h.mem_asked_of_granted ht) with hacc | hline
  · exact hacc
  · exact absurd hline ((List.nodup_append'.1 h.nodup_granted).2.2 ht)

/-- What the others hold when a party gives up its ticket. -/
theorem holds_of_drop {b : Party} {u : Ticket} (h : Function.update holds a none b = some u) :
    b ≠ a ∧ holds b = some u := by
  by_cases hba : b = a
  · rw [hba, Function.update_self] at h
    cases h
  · rw [Function.update_of_ne hba] at h
    exact ⟨hba, h⟩

/-- The order when a ticket is given up: one with access has no place in it to leave. -/
theorem order_drop (h : Roster gate holds issued asked dropped granted) (ha : holds a = some t) :
    asked.filter (· ∉ dropped ++ if gate.hasAccess t then [] else [t]) =
      granted ++ (gate.leave t).line := by
  cases hacc : gate.hasAccess t with
  | true =>
    rw [Gate.line_leave hacc, if_pos rfl, List.append_nil]
    exact h.order
  | false =>
    have hgranted : granted.filter (· ≠ t) = granted := List.filter_eq_self.2 fun u hu => by
      have hut : u ≠ t := by
        rintro rfl
        rw [h.hasAccess_of_granted ha hu] at hacc
        cases hacc
      simpa using hut
    have hsplit : asked.filter (· ∉ dropped ++ [t]) =
        (asked.filter (· ∉ dropped)).filter (· ≠ t) := by
      rw [List.filter_filter]
      congr 1
      funext u
      by_cases hu : u ∈ dropped <;> simp [hu]
    simp only [Bool.false_eq_true, if_false]
    rw [hsplit, h.order, List.filter_append, hgranted, Gate.line_leave_of_proper h.proper]

theorem drop (h : Roster gate holds issued asked dropped granted) (ha : holds a = some t) :
    Roster (gate.leave t) (Function.update holds a none) issued asked
      (dropped ++ if gate.hasAccess t then [] else [t]) granted := by
  have hne : ∀ b u, b ≠ a → holds b = some u → u ≠ t := by
    rintro b u hba hb rfl
    exact hba (h.single b a u hb ha)
  have hdropped : ∀ u, u ∈ dropped ++ (if gate.hasAccess t then [] else [t]) →
      u ∈ dropped ∨ u = t := by
    intro u hu
    rcases List.mem_append.1 hu with hu | hu
    · exact Or.inl hu
    · split at hu
      · cases hu
      · exact Or.inr (List.mem_singleton.1 hu)
  -- All that is said of the others was said of them before.
  refine ⟨?_, ?_, h.asked_fresh, ?_, h.nodup, ?_, ?_, ?_, h.order_drop ha, ?_⟩
  · intro b c u hb hc
    exact h.single b c u (holds_of_drop hb).2 (holds_of_drop hc).2
  · intro b u hb
    exact h.fresh b u (holds_of_drop hb).2
  · intro u hu
    rcases hdropped u hu with hu | rfl
    · exact h.dropped_fresh u hu
    · exact h.fresh a u ha
  · intro b u hb hu
    obtain ⟨hba, hbu⟩ := holds_of_drop hb
    rcases hdropped u hu with hu | hu
    · exact h.kept b u hbu hu
    · exact hne b u hba hbu hu
  · intro u hu
    obtain ⟨hknown, hut⟩ := (Gate.knows_leave h.proper).1 hu
    obtain ⟨hasked, b, hb⟩ := h.known u hknown
    have hba : b ≠ a := by
      rintro rfl
      exact hut (Option.some.inj (hb.symm.trans ha))
    exact ⟨hasked, b, by rwa [Function.update_of_ne hba]⟩
  · intro b u hb hasked
    obtain ⟨hba, hbu⟩ := holds_of_drop hb
    exact (Gate.knows_leave h.proper).2 ⟨h.waits b u hbu hasked, hne b u hba hbu⟩
  · intro u hu
    exact h.last u (Gate.hasAccess_leave_iff.1 hu).1

theorem issue (h : Roster gate holds issued asked dropped granted) (ha : holds a = none) :
    Roster gate (Function.update holds a (some issued)) (issued + 1) asked dropped granted := by
  -- Whoever holds a ticket now is the new holder, or held it before.
  have hold : ∀ b u, Function.update holds a (some issued) b = some u →
      b = a ∧ u = issued ∨ b ≠ a ∧ holds b = some u := by
    intro b u hb
    by_cases hba : b = a
    · rw [hba, Function.update_self] at hb
      exact Or.inl ⟨hba, (Option.some.inj hb).symm⟩
    · rw [Function.update_of_ne hba] at hb
      exact Or.inr ⟨hba, hb⟩
  refine ⟨?_, ?_, fun u hu => Nat.lt_succ_of_lt (h.asked_fresh u hu),
    fun u hu => Nat.lt_succ_of_lt (h.dropped_fresh u hu), h.nodup, ?_, ?_, ?_, h.order, h.last⟩
  · intro b c u hb hc
    rcases hold b u hb with ⟨rfl, rfl⟩ | ⟨-, hbu⟩
    · rcases hold c _ hc with ⟨rfl, -⟩ | ⟨-, hcu⟩
      · rfl
      · exact absurd (h.fresh c _ hcu) (Nat.lt_irrefl _)
    · rcases hold c u hc with ⟨rfl, rfl⟩ | ⟨-, hcu⟩
      · exact absurd (h.fresh b _ hbu) (Nat.lt_irrefl _)
      · exact h.single b c u hbu hcu
  · intro b u hb
    rcases hold b u hb with ⟨-, rfl⟩ | ⟨-, hbu⟩
    · exact Nat.lt_succ_self _
    · exact Nat.lt_succ_of_lt (h.fresh b u hbu)
  · intro b u hb hu
    rcases hold b u hb with ⟨-, rfl⟩ | ⟨-, hbu⟩
    · exact Nat.lt_irrefl _ (h.dropped_fresh _ hu)
    · exact h.kept b u hbu hu
  · intro u hu
    obtain ⟨hasked, b, hb⟩ := h.known u hu
    have hba : b ≠ a := by
      rintro rfl
      cases hb.symm.trans ha
    exact ⟨hasked, b, by rwa [Function.update_of_ne hba]⟩
  · intro b u hb hasked
    rcases hold b u hb with ⟨-, rfl⟩ | ⟨-, hbu⟩
    · exact absurd (h.asked_fresh _ hasked) (Nat.lt_irrefl _)
    · exact h.waits b u hbu hasked

/-- What asking leaves as it is, whether or not it is in vain. -/
theorem poll (h : Roster gate holds issued asked dropped granted) (ha : holds a = some t)
    {granted' : List Ticket}
    (horder : (note asked t).filter (· ∉ dropped) = granted' ++ (gate.poll t).2.line)
    (hlast : ∀ u, (gate.poll t).2.hasAccess u = true → granted'.getLast? = some u) :
    Roster (gate.poll t).2 holds issued (note asked t) dropped granted' where
  single := h.single
  fresh := h.fresh
  asked_fresh u hu := by
    rcases mem_note.1 hu with hu | rfl
    · exact h.asked_fresh u hu
    · exact h.fresh a u ha
  dropped_fresh := h.dropped_fresh
  nodup := nodup_note h.nodup
  kept := h.kept
  known u hu := by
    rcases Gate.knows_poll.1 hu with hu | rfl
    · obtain ⟨hasked, hb⟩ := h.known u hu
      exact ⟨mem_note.2 (Or.inl hasked), hb⟩
    · exact ⟨mem_note.2 (Or.inr rfl), a, ha⟩
  waits b u hb hu := by
    rcases mem_note.1 hu with hu | rfl
    · exact Gate.knows_poll.2 (Or.inl (h.waits b u hb hu))
    · exact Gate.knows_poll.2 (Or.inr rfl)
  order := horder
  last := hlast

/-- A ticket that asks for the first time comes last. -/
theorem filter_note (h : Roster gate holds issued asked dropped granted) (ha : holds a = some t)
    (ht : t ∉ asked) : (note asked t).filter (· ∉ dropped) = granted ++ gate.line ++ [t] := by
  have hkept := h.kept a t ha
  rw [note, if_neg ht, List.filter_append, h.order]
  simp [hkept]

theorem refuse (h : Roster gate holds issued asked dropped granted) (ha : holds a = some t)
    (hpoll : (gate.poll t).1 = false) :
    Roster (gate.poll t).2 holds issued (note asked t) dropped granted := by
  have hacc : gate.hasAccess t ≠ true := by
    intro hacc
    rw [Gate.poll_of_hasAccess hacc] at hpoll
    cases hpoll
  refine h.poll ha ?_ ?_
  · rw [Gate.line_poll_of_refused hpoll]
    by_cases ht : t ∈ asked
    · have hline : t ∈ gate.line := (h.waits a t ha ht).resolve_left hacc
      rw [note, if_pos ht, if_pos hline]
      exact h.order
    · have hline : t ∉ gate.line := fun hline => ht (h.known t (Or.inr hline)).1
      rw [h.filter_note ha ht, if_neg hline, List.append_assoc]
  · intro u hu
    rw [Gate.hasAccess_poll_of_refused hpoll] at hu
    exact h.last u hu

theorem grant (h : Roster gate holds issued asked dropped granted) (ha : holds a = some t)
    (hacc : gate.hasAccess t = false) (hpoll : (gate.poll t).1 = true) :
    Roster (gate.poll t).2 holds issued (note asked t) dropped (granted ++ [t]) := by
  refine h.poll ha ?_ ?_
  · rcases Gate.line_poll hpoll hacc with hline | ⟨hline, hline'⟩
    · -- It was the first in the line, so it had asked before.
      have hasked : t ∈ asked := (h.known t (Or.inr (by simp [hline]))).1
      rw [note, if_pos hasked, h.order, hline]
      simp
    · have hasked : t ∉ asked := by
        intro hasked
        rcases h.waits a t ha hasked with hknown | hknown
        · rw [hacc] at hknown
          cases hknown
        · simp [hline] at hknown
      rw [h.filter_note ha hasked, hline, hline']
      simp
  · intro u hu
    rcases Gate.hasAccess_poll_iff.1 hu with hother | ⟨-, rfl⟩
    · cases Gate.eq_of_poll hpoll hother
      rw [hacc] at hother
      cases hother
    · simp

theorem stay (h : Roster gate holds issued asked dropped granted)
    (hacc : gate.hasAccess t = true) :
    Roster (gate.poll t).2 holds issued (note asked t) dropped granted := by
  have hasked : t ∈ asked := (h.known t (Or.inl hacc)).1
  rw [Gate.poll_of_hasAccess hacc, note, if_pos hasked]
  exact h

end Roster

end Sparring
