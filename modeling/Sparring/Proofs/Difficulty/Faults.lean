import Mathlib.Data.List.Basic
import Sparring.Difficulty.Table
import Sparring.Proofs.Number.Order

/-!
# Rows without a fault

The search for a fault goes through the rows once, with the threshold of the row before and the
temperature that each model was first given. It finds none exactly if the rows are in order as a
whole (`InOrder`): every threshold is finite and lies above all those before it, and any two rows of
one model have equal temperatures (`faultFrom?_eq_none_iff`). So the rows of a table are in order
(`inOrder`).
-/

namespace Sparring.Table

/-- Whether rows are in order as a whole. -/
structure InOrder (rows : List Bucket) : Prop where
  finite : ∀ row ∈ rows, row.threshold.isFinite = true
  increasing : rows.Pairwise fun row later => row.threshold < later.threshold
  /-- Any two rows of one model have equal temperatures. -/
  agreed : rows.Pairwise fun row later => row.profile.model = later.profile.model →
    row.profile.temperature.eqv later.profile.temperature = true

/-- Whether rows go on with the temperatures that models have been given. -/
def Agrees (seen : List (String × Single)) (rows : List Bucket) : Prop :=
  ∀ row ∈ rows, ∀ first, seen.lookup row.profile.model = some first →
    first.eqv row.profile.temperature = true

section Cons

variable {row : Bucket} {rest : List Bucket} {seen : List (String × Single)}

/-- A threshold that lies above the one before it lies above all. -/
theorem inOrder_cons : InOrder (row :: rest) ↔
    row.threshold.isFinite = true ∧ InOrder rest ∧
      (∀ next ∈ rest.head?, ¬next.threshold ≤ row.threshold) ∧
      ∀ later ∈ rest, row.profile.model = later.profile.model →
        row.profile.temperature.eqv later.profile.temperature = true := by
  constructor
  · intro h
    obtain ⟨habove, hincreasing⟩ := List.pairwise_cons.1 h.increasing
    obtain ⟨hagreed, hrest⟩ := List.pairwise_cons.1 h.agreed
    refine ⟨h.finite row List.mem_cons_self,
      ⟨fun later hlater => h.finite later (List.mem_cons_of_mem _ hlater), hincreasing, hrest⟩,
      fun next hnext => Binary.not_le_of_lt (habove next (List.mem_of_mem_head? hnext)), hagreed⟩
  · rintro ⟨hfinite, h, hnext, hagreed⟩
    refine ⟨List.forall_mem_cons.2 ⟨hfinite, h.finite⟩, List.pairwise_cons.2 ⟨?_, h.increasing⟩,
      List.pairwise_cons.2 ⟨hagreed, h.agreed⟩⟩
    cases rest with
    | nil => exact fun later hlater => absurd hlater List.not_mem_nil
    | cons next rest =>
      have hnumber := Binary.ne_nan_of_isFinite (h.finite next List.mem_cons_self)
      have habove := Binary.lt_of_not_le hnumber (Binary.ne_nan_of_isFinite hfinite)
        (hnext next rfl)
      intro later hlater
      rcases List.mem_cons.1 hlater with rfl | hlater
      · exact habove
      · exact Binary.lt_trans habove ((List.pairwise_cons.1 h.increasing).1 later hlater)

theorem agrees_cons_of_seen {first : Single} (hseen : seen.lookup row.profile.model = some first) :
    Agrees seen (row :: rest) ∧ (∀ later ∈ rest, row.profile.model = later.profile.model →
        row.profile.temperature.eqv later.profile.temperature = true) ↔
      first.eqv row.profile.temperature = true ∧ Agrees seen rest := by
  constructor
  · rintro ⟨h, -⟩
    exact ⟨h row List.mem_cons_self first hseen,
      fun later hlater => h later (List.mem_cons_of_mem _ hlater)⟩
  · rintro ⟨hfirst, h⟩
    refine ⟨List.forall_mem_cons.2 ⟨fun first' hfirst' => ?_, h⟩, fun later hlater hmodel => ?_⟩
    · cases hseen.symm.trans hfirst'
      exact hfirst
    · rw [hmodel] at hseen
      exact Binary.eqv_trans (Binary.eqv_symm hfirst) (h later hlater first hseen)

/-- A model that has no temperature gets that of its first row. -/
theorem agrees_cons_of_new (hnew : seen.lookup row.profile.model = none) :
    Agrees seen (row :: rest) ∧ (∀ later ∈ rest, row.profile.model = later.profile.model →
        row.profile.temperature.eqv later.profile.temperature = true) ↔
      Agrees ((row.profile.model, row.profile.temperature) :: seen) rest := by
  constructor
  · rintro ⟨h, hrow⟩ later hlater first hfirst
    rw [List.lookup_cons] at hfirst
    by_cases hmodel : later.profile.model = row.profile.model
    · rw [beq_iff_eq.2 hmodel] at hfirst
      cases hfirst
      exact hrow later hlater hmodel.symm
    · rw [beq_eq_false_iff_ne.2 hmodel] at hfirst
      exact h later (List.mem_cons_of_mem _ hlater) first hfirst
  · intro h
    refine ⟨List.forall_mem_cons.2 ⟨fun first hfirst => ?_, fun later hlater first hfirst => ?_⟩,
      fun later hlater hmodel => ?_⟩
    · cases hnew.symm.trans hfirst
    · have hmodel : later.profile.model ≠ row.profile.model := by
        intro hmodel
        rw [hmodel, hnew] at hfirst
        cases hfirst
      refine h later hlater first ?_
      rwa [List.lookup_cons, beq_eq_false_iff_ne.2 hmodel]
    · refine h later hlater _ ?_
      rw [List.lookup_cons, beq_iff_eq.2 hmodel.symm]

end Cons

/-- From any row on no fault is found exactly if the rows from there on are in order, lie above the
threshold before them, and go on with the temperatures before them. -/
theorem faultFrom?_eq_none_iff {index : Nat} {previous : Option Double}
    {seen : List (String × Single)} {rows : List Bucket} :
    faultFrom? index previous seen rows = none ↔
      InOrder rows ∧ (∀ row ∈ rows.head?, ∀ before ∈ previous, ¬row.threshold ≤ before) ∧
        Agrees seen rows := by
  induction rows generalizing index previous seen with
  | nil => simp [faultFrom?, Agrees, InOrder.mk]
  | cons row rest ih =>
    -- What is asked of this row, then what is asked of the rows after it, then the temperatures.
    have hcons : (InOrder (row :: rest) ∧
        (∀ head ∈ (row :: rest).head?, ∀ before ∈ previous, ¬head.threshold ≤ before) ∧
          Agrees seen (row :: rest)) ↔
        row.threshold.isFinite = true ∧ (∀ before ∈ previous, ¬row.threshold ≤ before) ∧
          InOrder rest ∧ (∀ next ∈ rest.head?, ∀ before ∈ some row.threshold,
            ¬next.threshold ≤ before) ∧
          Agrees seen (row :: rest) ∧ ∀ later ∈ rest, row.profile.model = later.profile.model →
            row.profile.temperature.eqv later.profile.temperature = true := by
      rw [inOrder_cons]
      simp only [List.head?_cons, Option.mem_some_iff, forall_eq']
      tauto
    have hprevious : previous.any (row.threshold.le ·) = true ↔
        ¬∀ before ∈ previous, ¬row.threshold ≤ before := by
      cases previous with
      | none => simp
      | some before => simp [LE.le]
    rw [hcons]
    simp only [faultFrom?]
    by_cases hfinite : row.threshold.isFinite = true
    · by_cases hany : previous.any (row.threshold.le ·) = true
      · rw [if_neg (not_not.2 hfinite), if_pos hany]
        exact iff_of_false (Option.some_ne_none _) fun h => hprevious.1 hany h.2.1
      · have habove := not_not.1 (mt hprevious.2 hany)
        rw [if_neg (not_not.2 hfinite), if_neg hany]
        cases hseen : seen.lookup row.profile.model with
        | some first =>
          rw [agrees_cons_of_seen hseen]
          by_cases hfirst : first.eqv row.profile.temperature = true
          · simp only [if_pos hfirst, ih]
            tauto
          · simp [hfirst]
        | none =>
          rw [agrees_cons_of_new hseen, ih]
          tauto
    · simp [hfinite]

theorem inOrder (t : Table) : InOrder t.rows := by
  have hnone := t.faultless
  cases hrows : t.rows with
  | nil => exact absurd hrows t.rows_ne_nil
  | cons row rest =>
    rw [hrows] at hnone
    exact (faultFrom?_eq_none_iff.1 hnone).1

end Sparring.Table
