import Sparring.Handoff
import Sparring.Proofs.Run

/-!
# What the operations do to the slot and the mailboxes

The view of a handoff is its slot, its count and, for each search, what is in the mailbox of its
waiter: `box?` is `none` when there is no waiter, `some none` while the waiter waits, and
`some (some r)` when there is a reply. Each operation gets one lemma for each part of the view.

**Soundness** (`Sound`). Only numbers that were issued have a waiter, the armed search is the one
issued last, and a waiter waits exactly while its search is armed. Every operation keeps this.
-/

namespace Sparring.Handoff

/-- What is in the mailbox of a search. -/
def box? (h : Handoff) (n : SearchId) : Option (Option Reply) := h.mailboxes.lookup n

/-! ## Mailboxes -/

theorem lookup_post (m n : SearchId) (r : Reply) (boxes : List (SearchId × Option Reply)) :
    (post m r boxes).lookup n =
      if n = m then (boxes.lookup n).map (fun _ => some r) else boxes.lookup n := by
  induction boxes with
  | nil => simp [post]
  | cons b boxes ih =>
    obtain ⟨k, content⟩ := b
    simp only [post, List.map_cons] at ih ⊢
    by_cases hk : n = k
    · subst hk
      by_cases hm : n = m <;> simp [hm]
    · by_cases hkm : k = m
      · subst hkm
        have hne : (n == k) = false := by simpa using hk
        simp only [if_true, List.lookup_cons, hne, if_neg hk] at ih ⊢
        exact ih
      · have hne : (n == k) = false := by simpa using hk
        simp only [if_neg hkm, List.lookup_cons, hne] at ih ⊢
        exact ih

/-! ## The operations -/

section Operations

variable (h : Handoff) (m n : SearchId) (c : Completion)

theorem arm_of_armed {h : Handoff} {m : SearchId} (ha : h.armed = some m) :
    h.arm = (.error (.alreadyArmed m), h) := by
  simp [arm, ha]

theorem arm_of_empty {h : Handoff} (ha : h.armed = none) :
    h.arm = (.ok ⟨h.issued + 1⟩,
      ⟨some ⟨h.issued + 1⟩, h.issued + 1, h.mailboxes ++ [(⟨h.issued + 1⟩, none)]⟩) := by
  simp [arm, ha]

@[simp] theorem armed_fulfill : (h.fulfill c).2.armed = none := by
  unfold fulfill
  split
  · assumption
  · split <;> rfl

@[simp] theorem issued_fulfill : (h.fulfill c).2.issued = h.issued := by
  unfold fulfill
  split
  · rfl
  · split <;> rfl

/-- What a completion puts into the mailbox of the armed search. -/
def answer (armed : SearchId) (c : Completion) : Reply :=
  if c.search = some armed then .ok c.outcome else .error (.mismatch armed c.search)

theorem box?_fulfill : (h.fulfill c).2.box? n =
    if h.armed = some n then (h.box? n).map (fun _ => some (answer n c)) else h.box? n := by
  unfold fulfill
  split
  next ha => simp [ha]
  next armed ha =>
    by_cases hc : some armed = c.search
    · rw [if_pos hc, box?, lookup_post, ha]
      by_cases hn : n = armed
      · subst hn
        simp [answer, ← hc, box?]
      · simp [hn, Ne.symm hn, box?]
    · rw [if_neg hc, box?, lookup_post, ha]
      by_cases hn : n = armed
      · subst hn
        simp [answer, Ne.symm hc, box?]
      · simp [hn, Ne.symm hn, box?]

theorem armed_disarm :
    (h.disarm m).armed = if h.armed = some m then none else h.armed := by
  unfold disarm
  split <;> rfl

@[simp] theorem issued_disarm : (h.disarm m).issued = h.issued := by
  unfold disarm
  split <;> rfl

theorem box?_disarm : (h.disarm m).box? n =
    if h.armed = some m ∧ n = m then (h.box? n).map (fun _ => some (.error (.abandoned m)))
    else h.box? n := by
  unfold disarm
  split
  next ha => simp [box?, lookup_post, ha]
  next ha => simp [ha]

/-- Disarming anything but the armed search changes nothing. -/
theorem disarm_of_ne {h : Handoff} {m : SearchId} (ha : h.armed ≠ some m) : h.disarm m = h := by
  simp [disarm, ha]

@[simp] theorem armed_leave : (h.leave m).2.armed = h.armed := rfl

@[simp] theorem issued_leave : (h.leave m).2.issued = h.issued := rfl

theorem box?_leave : (h.leave m).2.box? n = if n = m then none else h.box? n :=
  lookup_filter_ne m n h.mailboxes

/-- A waiter that looks into its mailbox leaves when it finds a reply. -/
theorem collect_eq : h.collect m =
    match h.box? m with
    | none => (.unknown, h)
    | some none => (.pending, h)
    | some (some r) => (.reply r, (h.leave m).2) := rfl

@[simp] theorem armed_collect : (h.collect m).2.armed = h.armed := by
  rw [collect_eq]
  split <;> rfl

@[simp] theorem issued_collect : (h.collect m).2.issued = h.issued := by
  rw [collect_eq]
  split <;> rfl

theorem box?_collect : (h.collect m).2.box? n =
    if n = m ∧ (h.box? m).join.isSome then none else h.box? n := by
  rw [collect_eq]
  split
  next hb => simp [hb]
  next hb => simp [hb]
  next r hb => simp [hb, box?_leave]

end Operations

/-! ## Soundness -/

/-- The replies that the waiter of `n` can get. -/
def Fits (n : SearchId) (r : Reply) : Prop :=
  (∃ o, r = .ok o) ∨ (∃ g, r = .error (.mismatch n g)) ∨ r = .error (.abandoned n)

theorem fits_answer (n : SearchId) (c : Completion) : Fits n (answer n c) := by
  unfold answer
  split
  · exact Or.inl ⟨_, rfl⟩
  · exact Or.inr (Or.inl ⟨_, rfl⟩)

/-- What holds of the handoff of every history. -/
structure Sound (h : Handoff) : Prop where
  /-- Only numbers that were issued have a waiter. -/
  issued_of_box : ∀ n, h.box? n ≠ none → n.number ≤ h.issued
  /-- The armed search is the one issued last. -/
  armed_last : ∀ n, h.armed = some n → n.number = h.issued
  /-- A waiter waits while its search is armed, and only then. -/
  armed_of_pending : ∀ n, h.box? n = some none → h.armed = some n
  pending_of_armed : ∀ n r, h.armed = some n → h.box? n ≠ some (some r)
  /-- A reply names the search of its waiter, if any. -/
  fits : ∀ n r, h.box? n = some (some r) → Fits n r

theorem sound_new : new.Sound where
  issued_of_box _ hb := absurd rfl hb
  armed_last _ ha := by cases ha
  armed_of_pending _ hb := by cases hb
  pending_of_armed _ _ ha := by cases ha
  fits _ _ hb := by cases hb

namespace Sound

variable {h : Handoff}

theorem box?_next (hs : h.Sound) : h.box? ⟨h.issued + 1⟩ = none := by
  by_contra hb
  exact Nat.not_succ_le_self _ (hs.issued_of_box _ hb)

theorem box?_arm (hs : h.Sound) (ha : h.armed = none) (n : SearchId) :
    h.arm.2.box? n = if n = ⟨h.issued + 1⟩ then some none else h.box? n := by
  have hnext := hs.box?_next
  rw [arm_of_empty ha]
  simp only [box?] at hnext ⊢
  rw [List.lookup_append]
  by_cases hn : n = ⟨h.issued + 1⟩
  · subst hn
    simp [hnext]
  · have hne : (n == ⟨h.issued + 1⟩) = false := by simpa using hn
    rw [if_neg hn, List.lookup_cons, hne, List.lookup_nil, Option.or_none]

theorem arm (hs : h.Sound) : h.arm.2.Sound := by
  cases ha : h.armed with
  | some m => rwa [arm_of_armed ha]
  | none =>
    have hbox := hs.box?_arm ha
    have harmed : h.arm.2.armed = some ⟨h.issued + 1⟩ := by rw [arm_of_empty ha]
    have hissued : h.arm.2.issued = h.issued + 1 := by rw [arm_of_empty ha]
    -- The new mailbox is empty and belongs to the armed search; all others are as before.
    refine ⟨?_, ?_, ?_, ?_, ?_⟩
    · intro n hn
      rw [hissued]
      by_cases he : n = ⟨h.issued + 1⟩
      · simp [he]
      · rw [hbox, if_neg he] at hn
        exact Nat.le_succ_of_le (hs.issued_of_box n hn)
    · intro n hn
      rw [harmed, Option.some.injEq] at hn
      rw [hissued, ← hn]
    · intro n hn
      rw [harmed]
      by_cases he : n = ⟨h.issued + 1⟩
      · rw [he]
      · rw [hbox, if_neg he] at hn
        have := hs.armed_of_pending n hn
        rw [ha] at this
        cases this
    · intro n r hn
      rw [harmed, Option.some.injEq] at hn
      rw [hbox, if_pos hn.symm]
      simp
    · intro n r hn
      rw [hbox] at hn
      split at hn
      · cases hn
      · exact hs.fits n r hn

theorem fulfill (hs : h.Sound) (c : Completion) : (h.fulfill c).2.Sound := by
  refine ⟨?_, ?_, ?_, ?_, ?_⟩
  · intro n hn
    rw [issued_fulfill]
    refine hs.issued_of_box n fun hb => hn ?_
    rw [box?_fulfill, hb]
    simp
  · intro n hn
    simp at hn
  · intro n hn
    rw [box?_fulfill] at hn
    split at hn
    · cases hb : h.box? n <;> simp [hb] at hn
    · next ha => exact absurd (hs.armed_of_pending n hn) ha
  · intro n r hn
    simp at hn
  · intro n r hn
    rw [box?_fulfill] at hn
    split at hn
    · obtain ⟨_, -, hr⟩ := Option.map_eq_some_iff.1 hn
      rw [← Option.some.inj hr]
      exact fits_answer n c
    · exact hs.fits n r hn

theorem disarm (hs : h.Sound) (m : SearchId) : (h.disarm m).Sound := by
  -- Only if the slot is armed for this search does anything change: its waiter is told.
  by_cases ha : h.armed = some m
  · have harmed : (h.disarm m).armed = none := by rw [armed_disarm, if_pos ha]
    refine ⟨?_, ?_, ?_, ?_, ?_⟩
    · intro n hn
      rw [issued_disarm]
      refine hs.issued_of_box n fun hb => hn ?_
      rw [box?_disarm, hb]
      simp
    · intro n hn
      rw [harmed] at hn
      cases hn
    · intro n hn
      rw [box?_disarm] at hn
      split at hn
      · cases hb : h.box? n <;> simp [hb] at hn
      · next hm =>
        have := hs.armed_of_pending n hn
        rw [ha, Option.some.injEq] at this
        exact absurd ⟨ha, this.symm⟩ hm
    · intro n r hn
      rw [harmed] at hn
      cases hn
    · intro n r hn
      rw [box?_disarm] at hn
      split at hn
      · next hm =>
        obtain ⟨_, -, hr⟩ := Option.map_eq_some_iff.1 hn
        rw [← Option.some.inj hr, hm.2]
        exact Or.inr (Or.inr rfl)
      · exact hs.fits n r hn
  · rwa [disarm_of_ne ha]

theorem leave (hs : h.Sound) (m : SearchId) : (h.leave m).2.Sound := by
  have hbox : ∀ n, (h.leave m).2.box? n ≠ none → (h.leave m).2.box? n = h.box? n := by
    intro n hn
    rw [box?_leave] at hn ⊢
    split at hn
    · exact absurd rfl hn
    · next hm => rw [if_neg hm]
  refine ⟨?_, fun n hn => hs.armed_last n hn, ?_, ?_,
    ?_⟩
  · intro n hn
    exact hs.issued_of_box n (hbox n hn ▸ hn)
  · intro n hn
    exact hs.armed_of_pending n (hbox n (by simp [hn]) ▸ hn)
  · intro n r ha hn
    exact hs.pending_of_armed n r ha (hbox n (by simp [hn]) ▸ hn)
  · intro n r hn
    exact hs.fits n r (hbox n (by simp [hn]) ▸ hn)

theorem collect (hs : h.Sound) (m : SearchId) : (h.collect m).2.Sound := by
  rw [collect_eq]
  split
  · exact hs
  · exact hs
  · exact hs.leave m

/-- A step keeps a handoff sound. -/
theorem perform (hs : h.Sound) (step : Step) : (h.perform step).2.2.Sound := by
  cases step with
  | arm =>
    have := hs.arm
    simp only [Handoff.perform]
    split <;> simp_all
  | fulfill c | deliver c => exact hs.fulfill c
  | disarm m => exact hs.disarm m
  | collect m => exact hs.collect m
  | leave m => exact hs.leave m
  | escalate _ => exact hs

end Sound

end Sparring.Handoff
