import Mathlib.Data.ENat.Basic
import Sparring.Difficulty.Stock
import Sparring.Proofs.Difficulty.Faults

/-!
# The row of a difficulty

Every number is taken by exactly one row of a table, the one whose interval it lies in, and resolves
to the profile of that row; a NaN lies in no interval and falls through to the last row
(`resolve_account`).

Resolving stops at the first row whose threshold is not exceeded (`resolveFrom_stops`), and since the
thresholds increase, a greater difficulty is not taken by an earlier row (`Takes.le_of_le`). The
uniqueness of the row, and that nothing which increases down the rows can fall with the difficulty,
are both this one fact.
-/

namespace Sparring

/-- A budget, where zero stands for no limit. -/
def effective (budget : Nat) : ℕ∞ := if budget = 0 then ⊤ else budget

/-- The budgets of a profile for time, nodes and depth. -/
def Profile.budgets (p : Profile) : ℕ∞ × ℕ∞ × ℕ∞ :=
  (effective p.timeBudget.toNat, effective p.nodeBudget.toNat, effective p.depthBudget.toNat)

namespace Table

/-! ## Rows that take a difficulty -/

/-- Whether a row takes a difficulty: it lies above the threshold of the row before, and not above
that of the row itself. Nothing has to lie above the first row's beginning or below the last one's
end. -/
structure Takes (t : Table) (difficulty : Double) (i : Nat) : Prop where
  inside : i < t.rows.length
  above : i = 0 ∨ t.rows[i - 1].threshold < difficulty
  below : i = t.rows.length - 1 ∨ difficulty ≤ t.rows[i].threshold

/-- Resolving stops at the last row, or at the first one whose threshold is not exceeded. -/
theorem resolveFrom_stops (difficulty : Double) (row : Bucket) (rest : List Bucket) :
    ∃ i found, (row :: rest)[i]? = some found ∧
      resolveFrom difficulty row rest = found.profile ∧
      (i = rest.length ∨ difficulty ≤ found.threshold) ∧
      ∀ j < i, ∀ earlier, (row :: rest)[j]? = some earlier → ¬difficulty ≤ earlier.threshold := by
  induction rest generalizing row with
  | nil => exact ⟨0, row, rfl, rfl, Or.inl rfl, fun j hj => absurd hj (Nat.not_lt_zero j)⟩
  | cons next rest ih =>
    by_cases hle : difficulty ≤ row.threshold
    · exact ⟨0, row, rfl, if_pos hle, Or.inr hle, fun j hj => absurd hj (Nat.not_lt_zero j)⟩
    · obtain ⟨i, found, hfound, hresolve, hstop, hearlier⟩ := ih next
      refine ⟨i + 1, found, hfound, (if_neg hle).trans hresolve,
        hstop.imp_left (congrArg (· + 1)), ?_⟩
      rintro (_ | j) hj earlier hrow
      · cases hrow
        exact hle
      · exact hearlier j (Nat.lt_of_succ_lt_succ hj) earlier hrow

/-- The last row takes what no row before it takes. -/
theorem resolveFrom_eq_find? (difficulty : Double) {row last : Bucket} {rest init : List Bucket}
    (h : row :: rest = init ++ [last]) : resolveFrom difficulty row rest =
      ((init.find? fun earlier => difficulty.le earlier.threshold).getD last).profile := by
  induction init generalizing row rest with
  | nil =>
    obtain ⟨rfl, rfl⟩ := List.cons.inj h
    rfl
  | cons first init ih =>
    obtain ⟨rfl, hrest⟩ := List.cons.inj h
    cases rest with
    | nil => exact absurd hrest.symm (List.concat_ne_nil last init)
    | cons next rest =>
      rw [resolveFrom, List.find?_cons]
      by_cases hle : difficulty.le row.threshold = true
      · rw [if_pos hle, hle]
        rfl
      · rw [if_neg hle, eq_false_of_ne_true hle]
        exact ih hrest

section Table

variable (t : Table) {d d' : Double} {i i' : Nat}

theorem resolve_stops (difficulty : Double) : ∃ i found, t.rows[i]? = some found ∧
    t.resolve difficulty = found.profile ∧
    (i = t.rows.length - 1 ∨ difficulty ≤ found.threshold) ∧
    ∀ j < i, ∀ earlier, t.rows[j]? = some earlier → ¬difficulty ≤ earlier.threshold := by
  have hstops := resolveFrom_stops difficulty (t.rows.head t.rows_ne_nil) t.rows.tail
  rwa [List.cons_head_tail, List.length_tail] at hstops

theorem resolve_eq_find? (difficulty : Double) {init : List Bucket} {last : Bucket}
    (h : t.rows = init ++ [last]) : t.resolve difficulty =
      ((init.find? fun earlier => difficulty.le earlier.threshold).getD last).profile :=
  resolveFrom_eq_find? difficulty ((List.cons_head_tail t.rows_ne_nil).trans h)

variable {t}

theorem threshold_ne_nan {row : Bucket} (h : row ∈ t.rows) : row.threshold ≠ .nan :=
  Binary.ne_nan_of_isFinite (t.inOrder.finite row h)

theorem threshold_le (hle : i ≤ i') (hi' : i' < t.rows.length) :
    t.rows[i].threshold ≤ t.rows[i'].threshold := by
  rcases Nat.lt_or_eq_of_le hle with hlt | rfl
  · exact Binary.le_of_lt
      (List.pairwise_iff_getElem.1 t.inOrder.increasing i i' (by omega) hi' hlt)
  · exact Binary.le_refl (threshold_ne_nan (List.getElem_mem hi'))

/-- A greater difficulty is not taken by an earlier row. -/
theorem Takes.le_of_le (h : t.Takes d i) (h' : t.Takes d' i') (hle : d ≤ d') : i ≤ i' := by
  by_contra hlt
  have hi := h.inside
  have habove := h.above.resolve_left (by omega)
  have hbelow := h'.below.resolve_left (by omega)
  have hrows : t.rows[i'].threshold ≤ t.rows[i - 1].threshold := threshold_le (by omega) _
  exact Binary.not_le_of_lt habove (Binary.le_trans hle (Binary.le_trans hbelow hrows))

theorem exists_takes (hd : d ≠ .nan) : ∃ i found, t.Takes d i ∧ t.rows[i]? = some found ∧
    t.resolve d = found.profile := by
  obtain ⟨i, found, hfound, hresolve, hstop, hearlier⟩ := t.resolve_stops d
  obtain ⟨hi, hget⟩ := List.getElem?_eq_some_iff.1 hfound
  refine ⟨i, found, ⟨hi, ?_, by rwa [hget]⟩, hfound, hresolve⟩
  by_cases hzero : i = 0
  · exact Or.inl hzero
  · have hbefore : i - 1 < t.rows.length := by omega
    refine Or.inr (Binary.lt_of_not_le hd (threshold_ne_nan (List.getElem_mem hbefore)) ?_)
    exact hearlier (i - 1) (by omega) _ (List.getElem?_eq_getElem hbefore)

/-- A number resolves to the profile of the row that takes it. -/
theorem Takes.resolve_eq (h : t.Takes d i) (hd : d ≠ .nan) :
    t.resolve d = (t.rows.get ⟨i, h.inside⟩).profile := by
  obtain ⟨j, found, hj, hfound, hresolve⟩ := exists_takes (t := t) hd
  have hle := Binary.le_refl hd
  obtain rfl := Nat.le_antisymm (h.le_of_le hj hle) (hj.le_of_le h hle)
  obtain ⟨hi, rfl⟩ := List.getElem?_eq_some_iff.1 hfound
  exact hresolve

/-- What does not decrease down the rows does not decrease with the difficulty. -/
theorem resolve_mono {α : Type} [Preorder α] (measure : Profile → α)
    (hrows : t.rows.Pairwise fun row later => measure row.profile ≤ measure later.profile)
    (hle : d ≤ d') : measure (t.resolve d) ≤ measure (t.resolve d') := by
  obtain ⟨a, b, ha, hb, -⟩ := Binary.le_iff.1 hle
  obtain ⟨i, row, hi, hrow, hresolve⟩ := exists_takes (t := t) (Binary.ne_nan_of_place ha)
  obtain ⟨i', row', hi', hrow', hresolve'⟩ := exists_takes (t := t) (Binary.ne_nan_of_place hb)
  obtain ⟨hlt, rfl⟩ := List.getElem?_eq_some_iff.1 hrow
  obtain ⟨hlt', rfl⟩ := List.getElem?_eq_some_iff.1 hrow'
  rw [hresolve, hresolve']
  rcases Nat.lt_or_eq_of_le (hi.le_of_le hi' hle) with hbefore | rfl
  · exact List.pairwise_iff_getElem.1 hrows i i' hlt hlt' hbefore
  · exact le_refl _

end Table

/-! ## The account -/

/-- How the rows of a table take the difficulties. -/
structure ResolveAccount (t : Table) : Prop where
  /-- Every number is taken by exactly one row, the infinities and both zeros too, -/
  unique : ∀ d, d ≠ .nan → ∃! i, t.Takes d i
  /-- and resolves to the profile of that row. -/
  resolved : ∀ d i (h : t.Takes d i), d ≠ .nan →
    t.resolve d = (t.rows.get ⟨i, h.inside⟩).profile
  /-- A NaN resolves to the profile of the last row. -/
  nan : t.resolve .nan = (t.rows.getLast t.rows_ne_nil).profile
  /-- A greater difficulty is not taken by an earlier row. -/
  ordered : ∀ d d' i i', d ≤ d' → t.Takes d i → t.Takes d' i' → i ≤ i'
  /-- What does not decrease down the rows does not decrease with the difficulty, -/
  monotone : ∀ {α : Type} [Preorder α] (measure : Profile → α),
    (t.rows.Pairwise fun row later => measure row.profile ≤ measure later.profile) →
    ∀ d d', d ≤ d' → measure (t.resolve d) ≤ measure (t.resolve d')
  /-- and this goes for the budgets. -/
  budgets : (t.rows.Pairwise fun row later => row.profile.budgets ≤ later.profile.budgets) →
    ∀ d d', d ≤ d' → (t.resolve d).budgets ≤ (t.resolve d').budgets
  /-- The threshold of the last row has no influence. -/
  last : ∀ (t' : Table) init row threshold, t.rows = init ++ [row] →
    t'.rows = init ++ [{ row with threshold }] → ∀ d, t'.resolve d = t.resolve d

/-- The rows of a table cut the line of difficulties into intervals, in order. -/
theorem resolve_account (t : Table) : ResolveAccount t := by
  refine ⟨fun d hd => ?_, fun d i h hd => h.resolve_eq hd, ?_,
    fun d d' i i' hle h h' => h.le_of_le h' hle, fun measure hrows d d' hle =>
      resolve_mono measure hrows hle, fun hrows d d' hle => resolve_mono _ hrows hle, ?_⟩
  · obtain ⟨i, -, hi, -⟩ := exists_takes (t := t) hd
    have hle := Binary.le_refl hd
    exact ⟨i, hi, fun j hj => Nat.le_antisymm (hj.le_of_le hi hle) (hi.le_of_le hj hle)⟩
  · obtain ⟨i, found, hfound, hresolve, hstop, -⟩ := t.resolve_stops .nan
    have hlast : i = t.rows.length - 1 := hstop.resolve_right Binary.not_nan_le
    obtain ⟨hi, rfl⟩ := List.getElem?_eq_some_iff.1 hfound
    subst hlast
    rw [hresolve, List.getLast_eq_getElem]
  · intro t' init row threshold hrows hrows' d
    rw [t.resolve_eq_find? d hrows, t'.resolve_eq_find? d hrows']
    cases init.find? fun earlier => d.le earlier.threshold <;> rfl

/-- A threshold is taken by its own row, infinity by the last row. -/
example : stock.resolve (.ofRatio .double false 3 10) = (stockRow 3 2 "elo-754").profile ∧
    stock.resolve (.infinity false) = (stockRow 10 18 "elo-2701").profile := by
  decide +kernel

end Table

end Sparring
