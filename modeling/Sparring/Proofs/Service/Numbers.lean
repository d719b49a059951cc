import Sparring.Proofs.Run
import Sparring.Proofs.Service.Occupancy

/-!
# Every search has one task

The search of a task carries the number issued last (`Numbered`), and a task gets a search only
when a number is issued. So whenever two tasks have the same search, at whatever moments of a
run, they are one and the same task (`seeks_unique`).
-/

namespace Sparring.Service

/-- Whether a task has a search. -/
def Seeks (s : Service) (id : TaskId) (n : SearchId) : Prop :=
  ∃ stage, s.stage? id = some stage ∧ stage.search? = some n

theorem Seeks.searching {s : Service} {id : TaskId} {n : SearchId} (h : s.Seeks id n) :
    s.Searching n := ⟨id, h⟩

theorem Orderly.seeks_unique {s : Service} (ho : s.Orderly) {i j : TaskId} {m n : SearchId}
    (hi : s.Seeks i m) (hj : s.Seeks j n) : i = j ∧ m = n := by
  obtain ⟨a, hia, ha⟩ := hi
  obtain ⟨b, hjb, hb⟩ := hj
  cases ho.inside_unique hia (Stage.isInside_of_search? ha) hjb (Stage.isInside_of_search? hb)
  cases hia.symm.trans hjb
  exact ⟨rfl, Option.some.inj (ha.symm.trans hb)⟩

/-- Whether the searches that are going on carry the number issued last. -/
def Numbered (s : Service) : Prop := ∀ n, s.Searching n → n.number = s.handoff.issued

section Passage

variable {s : Service} {job : Job} {stage : Stage} {r : Option CallResult} {turn : Turn}

theorem Passage.issued_le (h : Passage s job stage r turn) :
    s.handoff.issued ≤ turn.service.handoff.issued := by
  cases h with
  | plain | refused | submitted => exact Nat.le_refl _
  | armed ha =>
    simp only [Turn.to]
    rw [Handoff.arm_of_empty ha]
    exact Nat.le_succ _
  | withdrawn | crashed | told => simp [Turn.to]

/-- A task keeps its search, or gets the next one. -/
theorem Passage.search? (h : Passage s job stage r turn) {n : SearchId}
    (hn : turn.stage.search? = some n) :
    stage.search? = some n ∧ turn.service.handoff.issued = s.handoff.issued ∨
      n.number = s.handoff.issued + 1 ∧ turn.service.handoff.issued = s.handoff.issued + 1 := by
  cases h with
  | plain registry hin hno hplain =>
    rw [Turn.to, Stage.search?_of_plain hplain] at hn
    cases hn
  | armed ha =>
    cases hn
    refine Or.inr ⟨rfl, ?_⟩
    simp only [Turn.to]
    rw [Handoff.arm_of_empty ha]
  | submitted => exact Or.inl ⟨hn, rfl⟩
  | refused | withdrawn | crashed | told => cases hn

theorem Passage.issued_of_fatal (h : Passage s job stage r turn) (hf : turn.Fatal) :
    turn.service.handoff.issued = s.handoff.issued := by
  cases h with
  | armed ha => exact absurd hf (not_fatal_to _ _)
  | plain | refused | submitted => rfl
  | withdrawn | crashed | told => simp [Turn.to]

end Passage

theorem issued_step (s : Service) (e : Event) :
    s.handoff.issued ≤ (s.step e).1.handoff.issued := by
  cases ha : s.aborted with
  | true => exact Nat.le_of_eq (by rw [step_of_aborted ha])
  | false =>
    have hc := change_step ha e
    generalize s.step e = out at hc
    cases hc with
    | idle | arrived | queued => exact Nat.le_refl _
    | completed c => simp
    | entered => simp [Turn.to]
    | passed he ht hpass =>
      rw [handoff_move]
      exact hpass.issued_le

theorem issued_le_after (s : Service) (es : List Event) :
    s.handoff.issued ≤ (s.after es).handoff.issued :=
  after_of_step (P := fun s' => s.handoff.issued ≤ s'.handoff.issued)
    (fun s' e h => Nat.le_trans h (issued_step s' e)) (Nat.le_refl _) es

/-- A task had its search before a step, or has been issued it by the step. -/
theorem seeks_step {s : Service} {e : Event} {id : TaskId} {n : SearchId}
    (h : (s.step e).1.Seeks id n) : s.Seeks id n ∨ n.number = s.handoff.issued + 1 := by
  obtain ⟨stage, hid, hn⟩ := h
  rcases stage?_step hid with hid | hplain | ⟨-, job, old, r, turn, -, hold, hpass, rfl⟩
  · exact Or.inl ⟨stage, hid, hn⟩
  · rw [Stage.search?_of_plain hplain] at hn
    cases hn
  · exact (hpass.search? hn).imp (fun h => ⟨old, hold, h.1⟩) And.left

theorem numbered_new (settings : EngineSettings) (table : Table) (policy : FailurePolicy) :
    (new settings table policy).Numbered := by
  rintro n ⟨id, stage, hid, -⟩
  simp [new, stage?] at hid

/-- Only the task that is issued a number moves on meanwhile. -/
theorem numbered_step {s : Service} (ho : s.Orderly) (h : s.Numbered) (e : Event) :
    (s.step e).1.Numbered := by
  cases ha : s.aborted with
  | true => rwa [step_of_aborted ha]
  | false =>
    have hc := change_step ha e
    generalize s.step e = out at hc
    cases hc with
    | idle | queued => exact h
    | completed c =>
      intro n hn
      rw [Handoff.issued_fulfill]
      exact h n hn
    | arrived job =>
      rintro n ⟨j, stage, hj, hn⟩
      rw [stage?_arrive] at hj
      split at hj
      · cases hj
        cases hn
      · exact h n ⟨j, stage, hj, hn⟩
    | @entered id t ht hw hp =>
      intro n hn
      have hplain := Stage.search?_of_plain (s.plain_firstStage t.job)
      have hfirst := (Alone.searching_move (ho.alone_of_poll hp) (stage?_of_task ht)
        (by exact not_fatal_to _ _) n).1 hn
      rw [show (Turn.to (s.firstStage t.job) _).stage = s.firstStage t.job from rfl, hplain]
        at hfirst
      cases hfirst
    | @passed e id t r turn he ht hpass =>
      intro n hn
      have hid := stage?_of_task ht
      rw [handoff_move]
      by_cases hf : turn.Fatal
      · rw [move_of_fatal hf] at hn
        obtain ⟨j, stage, hj, hm⟩ := hn
        rw [hpass.issued_of_fatal hf]
        exact h n ⟨j, stage, (hpass.stage?_eq j).symm.trans hj, hm⟩
      -- A task inside is alone: the search is the one it keeps, or has just been issued.
      · rw [(hpass.alone ho hid).searching_move ((hpass.stage?_eq id).trans hid) hf] at hn
        rcases hpass.search? hn with ⟨hold, hissued⟩ | ⟨hnumber, hissued⟩
        · rw [hissued]
          exact h n ⟨id, t.stage, hid, hold⟩
        · rw [hissued, hnumber]

/-- A task that has a search in the end had it as soon as the number had been issued. -/
theorem seeks_of_issued {s : Service} {es : List Event} {id : TaskId} {n : SearchId}
    (h : (s.after es).Seeks id n) (hn : n.number ≤ s.handoff.issued) : s.Seeks id n := by
  induction es using List.reverseRecOn with
  | nil => exact h
  | append_singleton es e ih =>
    rw [after_concat] at h
    rcases seeks_step h with h | hnext
    · exact ih h
    · rw [hnext] at hn
      exact absurd hn (Nat.not_le.2 (Nat.lt_succ_of_le (s.issued_le_after es)))

theorem orderly_numbered_after {s : Service} (ho : s.Orderly) (h : s.Numbered)
    (es : List Event) : (s.after es).Orderly ∧ (s.after es).Numbered :=
  after_of_step (P := fun s => s.Orderly ∧ s.Numbered)
    (fun _ e h => ⟨orderly_step h.1 e, numbered_step h.1 h.2 e⟩) ⟨ho, h⟩ es

/-- Two tasks that have the same search, at two moments of a run, are the same. -/
theorem seeks_unique {s : Service} (ho : s.Orderly) (hs : s.Numbered) {es : List Event}
    {i j : TaskId} {n : SearchId} (hi : s.Seeks i n) (hj : (s.after es).Seeks j n) : i = j :=
  (ho.seeks_unique hi (seeks_of_issued hj (Nat.le_of_eq (hs n hi.searching)))).1

end Sparring.Service
