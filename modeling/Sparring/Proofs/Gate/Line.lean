import Mathlib.Data.List.Nodup
import Sparring.Gate

/-!
# Access and the line at the gate

The view of a gate is who has access (`hasAccess`) and who has a place in the `line`: the visitors
to whom access has been promised and who do not have it yet, in order. Each operation gets its
lemmas for the two parts of the view.
-/

namespace Sparring.Gate

variable {ν : Type} [DecidableEq ν] {g : Gate ν} {v w : ν}

/-! ## Access -/

theorem hasAccess_iff : g.hasAccess v = true ↔ ∃ waiting, g = .held v true waiting := by
  cases g with
  | free => simp [hasAccess]
  | held u inside waiting =>
    cases inside <;> simp [hasAccess, eq_comm]

theorem hasAccess_unique (hv : g.hasAccess v = true) (hw : g.hasAccess w = true) : v = w := by
  obtain ⟨waiting, rfl⟩ := hasAccess_iff.1 hv
  obtain ⟨waiting', he⟩ := hasAccess_iff.1 hw
  exact (Gate.held.inj he).1

theorem hasAccess_poll (h : (g.poll v).1 = true) : (g.poll v).2.hasAccess v = true := by
  cases g with
  | free => simp [poll, hasAccess]
  | held u inside waiting =>
    unfold poll at h ⊢
    by_cases hu : v = u
    · simp [hu, hasAccess]
    · by_cases hw : v ∈ waiting <;> simp [hu, hw] at h

theorem eq_of_poll (h : (g.poll v).1 = true) (hw : g.hasAccess w = true) : v = w := by
  obtain ⟨waiting, rfl⟩ := hasAccess_iff.1 hw
  by_contra hne
  by_cases hv : v ∈ waiting <;> simp [poll, hne, hv] at h

theorem hasAccess_poll_of_refused (h : (g.poll v).1 = false) :
    (g.poll v).2.hasAccess w = g.hasAccess w := by
  cases g with
  | free => simp [poll] at h
  | held u inside waiting =>
    unfold poll at h ⊢
    by_cases hu : v = u
    · simp [hu] at h
    · by_cases hw : v ∈ waiting <;> cases inside <;> simp [hu, hw, hasAccess]

theorem hasAccess_leave (hv : g.hasAccess v = true) : (g.leave v).hasAccess w = false := by
  obtain ⟨waiting, rfl⟩ := hasAccess_iff.1 hv
  cases waiting <;> simp [leave, passOn, hasAccess]

/-- Asking gives access to nobody but the one who is let in. -/
theorem hasAccess_poll_iff : (g.poll v).2.hasAccess w = true ↔
    g.hasAccess w = true ∨ (g.poll v).1 = true ∧ w = v := by
  cases g with
  | free => simp [poll, hasAccess]
  | held u inside waiting =>
    unfold poll
    by_cases hu : v = u
    · subst hu
      cases inside <;> simp [hasAccess]
    · by_cases hw : v ∈ waiting <;> cases inside <;> simp [hu, hw, hasAccess]

theorem poll_of_hasAccess (hv : g.hasAccess v = true) : g.poll v = (true, g) := by
  obtain ⟨waiting, rfl⟩ := hasAccess_iff.1 hv
  simp [poll]

theorem poll_eq_true : (g.poll v).1 = true ↔ g.isHeld = false ∨ g.holder? = some v := by
  cases g with
  | free => simp [poll, isHeld]
  | held u inside waiting =>
    unfold poll
    by_cases hu : v = u
    · simp [hu, holder?]
    · by_cases hw : v ∈ waiting <;> simp [hu, hw, isHeld, holder?, Ne.symm hu]

/-- Whether a visitor may come in: nobody has the gate, or it has the gate itself. -/
def admits (g : Gate ν) (v : ν) : Bool := !g.isHeld || g.holder? = some v

theorem admits_iff : g.admits v = true ↔ g.isHeld = false ∨ g.holder? = some v := by
  simp [admits]

theorem poll_eq_admits (g : Gate ν) (v : ν) : (g.poll v).1 = g.admits v := by
  rw [Bool.eq_iff_iff, poll_eq_true, admits_iff]

/-- Whoever leaves takes access from nobody else, and gives it to nobody. -/
theorem hasAccess_leave_iff :
    (g.leave v).hasAccess w = true ↔ g.hasAccess w = true ∧ w ≠ v := by
  cases g with
  | free => simp [leave, hasAccess]
  | held u inside waiting =>
    unfold leave
    by_cases hu : v = u
    · subst hu
      cases waiting <;> cases inside <;> simp [passOn, hasAccess]
    · cases inside with
      | false => simp [hu, hasAccess]
      | true =>
        have hne : w = u → w ≠ v := fun h h' => hu (h'.symm.trans h)
        simpa [hu, hasAccess] using hne

/-! ## The line -/

/-- The visitors to whom access has been promised and who do not have it yet, in order. One to whom
the gate was handed comes first until it notices. -/
def line : Gate ν → List ν
  | free => []
  | held w inside waiting => if inside then waiting else w :: waiting

theorem line_passOn {ν : Type} (waiting : List ν) : (passOn waiting).line = waiting := by
  cases waiting <;> rfl

/-- Whoever leaves with access keeps nobody's place. -/
theorem line_leave (hv : g.hasAccess v = true) : (g.leave v).line = g.line := by
  obtain ⟨waiting, rfl⟩ := hasAccess_iff.1 hv
  rw [leave, if_pos rfl, line_passOn]
  rfl

/-- Whoever asks in vain has a place in the line from then on, at the end if it had none. -/
theorem line_poll_of_refused (h : (g.poll v).1 = false) :
    (g.poll v).2.line = if v ∈ g.line then g.line else g.line ++ [v] := by
  cases g with
  | free => simp [poll] at h
  | held w inside waiting =>
    unfold poll at h ⊢
    by_cases hw : v = w
    · simp [hw] at h
    · by_cases hv : v ∈ waiting <;> cases inside <;> simp [line, hw, hv]

/-- Whoever is let in was the first in the line, or there was none. -/
theorem line_poll (h : (g.poll v).1 = true) (hno : g.hasAccess v = false) :
    g.line = v :: (g.poll v).2.line ∨ g.line = [] ∧ (g.poll v).2.line = [] := by
  cases g with
  | free => exact Or.inr ⟨rfl, rfl⟩
  | held w inside waiting =>
    unfold poll at h ⊢
    by_cases hw : v = w
    · subst hw
      cases inside with
      | true => simp [hasAccess] at hno
      | false => simp [line]
    · by_cases hv : v ∈ waiting <;> simp [hw, hv] at h

/-- Nobody has two places, and nobody who has access has one. -/
structure Proper (g : Gate ν) : Prop where
  nodup : g.line.Nodup
  outside : ∀ v, g.hasAccess v = true → v ∉ g.line

/-- Whoever leaves a proper gate has no place any more, and the others keep theirs. -/
theorem line_leave_of_proper (hg : g.Proper) (v : ν) :
    (g.leave v).line = g.line.filter (· ≠ v) := by
  cases g with
  | free => rfl
  | held u inside waiting =>
    have hnodup := hg.nodup
    have hout := hg.outside u
    have hkeep : u ∉ waiting → waiting.filter (· ≠ u) = waiting := fun h =>
      List.filter_eq_self.2 fun w hw => by
        have hne : w ≠ u := fun he => h (he ▸ hw)
        simpa using hne
    by_cases hu : v = u
    · subst hu
      have hleave : ((held v inside waiting).leave v).line = waiting := by
        rw [leave, if_pos rfl, line_passOn]
      rw [hleave]
      cases inside with
      | false =>
        have hfirst : v ∉ waiting := (List.nodup_cons.1 hnodup).1
        simpa [line] using (hkeep hfirst).symm
      | true => exact (hkeep (hout (by simp [hasAccess]))).symm
    · simp only [leave, if_neg hu]
      cases inside with
      | false => simp [line, Ne.symm hu]
      | true => rfl

/-! ## Whom a gate knows -/

/-- A visitor has access or a place in the line. -/
def Knows (g : Gate ν) (v : ν) : Prop := g.hasAccess v = true ∨ v ∈ g.line

theorem knows_poll : (g.poll v).2.Knows w ↔ g.Knows w ∨ w = v := by
  cases g with
  | free => simp [Knows, poll, hasAccess, line]
  | held u inside waiting =>
    unfold poll
    by_cases hu : v = u
    · subst hu
      cases inside <;> simp [Knows, hasAccess, line] <;> tauto
    · by_cases hv : v ∈ waiting
      · have hw : w = v → w ∈ waiting := fun he => he ▸ hv
        cases inside <;> simp [Knows, hu, hv, hasAccess, line] <;> tauto
      · cases inside <;> simp [Knows, hu, hv, hasAccess, line] <;> tauto

/-- A proper gate forgets whoever leaves, and nobody else. -/
theorem knows_leave (hg : g.Proper) : (g.leave v).Knows w ↔ g.Knows w ∧ w ≠ v := by
  simp only [Knows, hasAccess_leave_iff, line_leave_of_proper hg, List.mem_filter,
    decide_eq_true_eq]
  tauto

theorem isHeld_iff {ν : Type} {g : Gate ν} : g.isHeld = true ↔ ∃ v, g.holder? = some v := by
  cases g <;> simp [isHeld, holder?]

/-- The holder has access or is the first in the line. -/
theorem holder?_eq_some : g.holder? = some v ↔ g.hasAccess v = true ∨
    (∀ w, g.hasAccess w = false) ∧ g.line.head? = some v := by
  cases g with
  | free => simp [holder?, hasAccess, line]
  | held u inside waiting =>
    cases inside with
    | false => simp [holder?, hasAccess, line]
    | true =>
      have hone : ¬∀ w, (held u true waiting).hasAccess w = false := fun h => by
        simpa [hasAccess] using h u
      simp only [hone, false_and, or_false]
      simp [holder?, hasAccess, eq_comm]

/-- While nobody has access, the gate belongs to the first in the line. -/
theorem holder?_of_no_access (h : ∀ w, g.hasAccess w = false) : g.holder? = g.line.head? := by
  ext v
  rw [holder?_eq_some, h v]
  simp [h]

theorem not_knows_of_not_held (h : g.isHeld = false) (v : ν) : ¬g.Knows v := by
  cases g with
  | free => simp [Knows, hasAccess, line]
  | held => cases h

/-- When the holder leaves, the gate passes to the first of those who wait. -/
theorem leave_of_holder (h : g.holder? = some v) :
    (g.leave v).holder? = g.queue.head? ∧ (g.leave v).queue = g.queue.tail := by
  cases g with
  | free => cases h
  | held u inside waiting =>
    cases h
    cases waiting <;> simp [leave, passOn, holder?, queue]

end Sparring.Gate
