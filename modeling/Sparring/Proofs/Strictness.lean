import Mathlib.Data.List.Induction

/-!
# A lenient machine and a strict one

A machine shows an entry for each event and goes on, or the event ends it. A *trail* is what it
shows of a row of events, each entry with the state after it. Of two machines that take the same
steps the *lenient* one goes on whatever happens, and the *strict* one ends where a rule is broken.
So what the strict one shows is the beginning of what the lenient one shows, up to the first break
(`parted`).
-/

namespace Sparring

/-- A machine: its steps, what it shows of an event, and whether the event ends it. -/
structure Machine (σ ε α : Type) where
  step : σ → ε → σ
  look : σ → ε → α
  ends : σ → ε → Bool

namespace Machine

variable {σ τ ε α : Type}

/-- What a machine shows of a row of events before one of them ends it. -/
def trail (P : Machine σ ε α) (s : σ) : List ε → List (α × σ)
  | [] => []
  | e :: es => if P.ends s e then [] else (P.look s e, P.step s e) :: P.trail (P.step s e) es

/-- No event of a row breaks a rule in the state that it meets. -/
def Unbroken (P : Machine σ ε α) (Breaks : σ → ε → Prop) (s : σ) (es : List ε) : Prop :=
  ∀ before e later, es = before ++ e :: later → ¬Breaks (before.foldl P.step s) e

theorem unbroken_nil (P : Machine σ ε α) (Breaks : σ → ε → Prop) (s : σ) :
    P.Unbroken Breaks s [] := by
  intro before e later h
  simp at h

theorem unbroken_cons {P : Machine σ ε α} {Breaks : σ → ε → Prop} {s : σ} {e : ε} {es : List ε} :
    P.Unbroken Breaks s (e :: es) ↔ ¬Breaks s e ∧ P.Unbroken Breaks (P.step s e) es := by
  constructor
  · intro h
    refine ⟨h [] e es rfl, ?_⟩
    intro before x later hes
    exact h (e :: before) x later (by rw [hes]; rfl)
  · rintro ⟨he, hes⟩ before x later h
    cases before with
    | nil =>
      obtain ⟨rfl, rfl⟩ := List.cons.inj h
      exact he
    | cons y before =>
      obtain ⟨rfl, rfl⟩ := List.cons.inj h
      exact hes before x later rfl

/-- A row in which a rule is broken has a first event that breaks one. -/
theorem exists_first_break {P : Machine σ ε α} {Breaks : σ → ε → Prop} {s : σ} {es : List ε}
    (h : ¬P.Unbroken Breaks s es) :
    ∃ before e later, es = before ++ e :: later ∧ P.Unbroken Breaks s before ∧
      Breaks (before.foldl P.step s) e := by
  induction es generalizing s with
  | nil => exact absurd (P.unbroken_nil Breaks s) h
  | cons e es ih =>
    by_cases he : Breaks s e
    · exact ⟨[], e, es, rfl, P.unbroken_nil Breaks s, he⟩
    · have hes : ¬P.Unbroken Breaks (P.step s e) es := fun hes => h (unbroken_cons.2 ⟨he, hes⟩)
      obtain ⟨before, x, later, rfl, hbefore, hx⟩ := ih hes
      exact ⟨e :: before, x, later, rfl, unbroken_cons.2 ⟨he, hbefore⟩, hx⟩

/-- The machine `strict` takes the steps of `lenient`, in states that are copies, except that it
ends where a rule is broken. The other one never ends while it is `Going`. -/
structure Restrains (strict : Machine τ ε α) (lenient : Machine σ ε α) (copy : σ → τ)
    (Going : σ → Prop) (Breaks : σ → ε → Prop) : Prop where
  going : ∀ s e, Going s → Going (lenient.step s e)
  lasts : ∀ s e, Going s → lenient.ends s e = false
  ends : ∀ s e, Going s → Breaks s e → strict.ends (copy s) e = true
  spares : ∀ s e, Going s → ¬Breaks s e → strict.ends (copy s) e = false
  look : ∀ s e, Going s → ¬Breaks s e → strict.look (copy s) e = lenient.look s e
  step : ∀ s e, Going s → ¬Breaks s e → strict.step (copy s) e = copy (lenient.step s e)

/-- How the trail of a strict machine compares with that of a lenient one. -/
structure Parted (strict : Machine τ ε α) (lenient : Machine σ ε α) (copy : σ → τ)
    (Breaks : σ → ε → Prop) (s : σ) (es : List ε) : Prop where
  /-- The lenient machine goes on to the end. -/
  complete : (lenient.trail s es).length = es.length
  /-- If no rule is broken, the other one shows the same, in the same states. -/
  same : lenient.Unbroken Breaks s es →
    strict.trail (copy s) es = (lenient.trail s es).map (Prod.map id copy)
  /-- Otherwise it shows the same up to the first break, and no more. -/
  parts : ∀ before e later, es = before ++ e :: later → lenient.Unbroken Breaks s before →
    Breaks (before.foldl lenient.step s) e →
    strict.trail (copy s) es = ((lenient.trail s es).take before.length).map (Prod.map id copy) ∧
      strict.ends (copy (before.foldl lenient.step s)) e = true
  /-- There is a first break unless no rule is broken. -/
  first : ¬lenient.Unbroken Breaks s es → ∃ before e later, es = before ++ e :: later ∧
    lenient.Unbroken Breaks s before ∧ Breaks (before.foldl lenient.step s) e

namespace Restrains

variable {strict : Machine τ ε α} {lenient : Machine σ ε α} {copy : σ → τ} {Going : σ → Prop}
  {Breaks : σ → ε → Prop}

theorem going_foldl (h : Restrains strict lenient copy Going Breaks) {s : σ} (hs : Going s)
    (es : List ε) : Going (es.foldl lenient.step s) := by
  induction es generalizing s with
  | nil => exact hs
  | cons e es ih => exact ih (h.going s e hs)

theorem length_trail (h : Restrains strict lenient copy Going Breaks) {s : σ} (hs : Going s)
    (es : List ε) : (lenient.trail s es).length = es.length := by
  induction es generalizing s with
  | nil => rfl
  | cons e es ih =>
    have hrest := ih (h.going s e hs)
    simp [trail, h.lasts s e hs, hrest]

/-- As long as no rule is broken the two show the same; whatever comes then is up to them. -/
theorem trail_append (h : Restrains strict lenient copy Going Breaks) {s : σ} (hs : Going s)
    {es : List ε} (hes : lenient.Unbroken Breaks s es) (later : List ε) :
    strict.trail (copy s) (es ++ later) =
      ((lenient.trail s (es ++ later)).take es.length).map (Prod.map id copy) ++
        strict.trail (copy (es.foldl lenient.step s)) later := by
  induction es generalizing s with
  | nil => simp
  | cons e es ih =>
    obtain ⟨he, hrest⟩ := unbroken_cons.1 hes
    have hsame := ih (h.going s e hs) hrest
    simp only [List.cons_append, trail, h.lasts s e hs, h.spares s e hs he,
      h.look s e hs he, h.step s e hs he, hsame]
    simp

theorem parted (h : Restrains strict lenient copy Going Breaks) {s : σ} (hs : Going s)
    (es : List ε) : Parted strict lenient copy Breaks s es where
  complete := h.length_trail hs es
  same hes := by
    have htrail := h.trail_append hs hes []
    have hlength := h.length_trail hs es
    rw [List.append_nil, ← hlength, List.take_length] at htrail
    simpa [trail] using htrail
  parts before e later hsplit hbefore he := by
    have hgoing := h.going_foldl hs before
    have hends := h.ends _ e hgoing he
    subst hsplit
    refine ⟨?_, hends⟩
    rw [h.trail_append hs hbefore]
    simp [trail, hends]
  first := exists_first_break

end Restrains

end Machine

end Sparring
