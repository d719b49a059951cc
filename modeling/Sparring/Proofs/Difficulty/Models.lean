import Mathlib.Data.List.Nodup
import Sparring.Proofs.Difficulty.Rows

/-!
# The models of a table

A table names each of its models once in `distinctModels`, in the order in which they first occur,
and every difficulty, a NaN and the infinities too, resolves to the profile of some row. So whatever
is played needs one of these models, and no other (`model_resolve_mem`).
-/

namespace Sparring.Table

/-- The models of a table, each of them once. -/
def models (t : Table) : List String := t.distinctModels.map (·.model)

theorem mem_map_firstOfEachModel {ps : List Profile} {model : String} :
    model ∈ (firstOfEachModel ps).map (·.model) ↔ model ∈ ps.map (·.model) := by
  induction ps with
  | nil => simp [firstOfEachModel]
  | cons p ps ih =>
    have hrest : model ∈ ((firstOfEachModel ps).filter (·.model ≠ p.model)).map (·.model) ↔
        model ∈ (firstOfEachModel ps).map (·.model) ∧ model ≠ p.model := by
      simp only [List.mem_map, List.mem_filter, decide_eq_true_eq]
      constructor
      · rintro ⟨q, ⟨hq, hne⟩, rfl⟩
        exact ⟨⟨q, hq, rfl⟩, hne⟩
      · rintro ⟨⟨q, hq, rfl⟩, hne⟩
        exact ⟨q, ⟨hq, hne⟩, rfl⟩
    rw [firstOfEachModel, List.map_cons, List.mem_cons, hrest, ih, List.map_cons, List.mem_cons]
    by_cases hp : model = p.model <;> simp [hp]

theorem nodup_map_firstOfEachModel (ps : List Profile) :
    ((firstOfEachModel ps).map (·.model)).Nodup := by
  induction ps with
  | nil => exact List.nodup_nil
  | cons p ps ih =>
    rw [firstOfEachModel, List.map_cons, List.nodup_cons]
    refine ⟨?_, ih.sublist (List.filter_sublist.map _)⟩
    simp [List.mem_map, List.mem_filter]

theorem firstOfEachModel_subset (ps : List Profile) : firstOfEachModel ps ⊆ ps := by
  induction ps with
  | nil => exact List.nil_subset _
  | cons p ps ih =>
    exact List.cons_subset_cons p (List.Subset.trans (List.filter_subset_self _) ih)

section Models

variable (t : Table) {model : String}

theorem distinctModels_mem {p : Profile} (h : p ∈ t.distinctModels) :
    ∃ row ∈ t.rows, row.profile = p :=
  List.mem_map.1 (firstOfEachModel_subset _ h)

theorem mem_models : model ∈ t.models ↔ ∃ row ∈ t.rows, row.profile.model = model := by
  rw [models, distinctModels, mem_map_firstOfEachModel, List.map_map, List.mem_map]
  rfl

theorem nodup_models : t.models.Nodup := nodup_map_firstOfEachModel _

theorem resolve_mem (difficulty : Double) :
    ∃ row ∈ t.rows, row.profile = t.resolve difficulty := by
  obtain ⟨i, row, hrow, hresolve, -⟩ := t.resolve_stops difficulty
  exact ⟨row, List.mem_of_getElem? hrow, hresolve.symm⟩

theorem model_resolve_mem (difficulty : Double) : (t.resolve difficulty).model ∈ t.models := by
  obtain ⟨row, hrow, heq⟩ := t.resolve_mem difficulty
  exact t.mem_models.2 ⟨row, hrow, by rw [heq]⟩

/-- A profile does not stand twice among the distinct ones, not even under another temperature. -/
theorem not_mem_of_distinct {before later : List Profile} {p : Profile}
    (h : t.distinctModels = before ++ p :: later) : p.model ∉ before.map (·.model) := by
  have hnodup := t.nodup_models
  rw [models, h, List.map_append, List.map_cons] at hnodup
  intro hmem
  exact (List.nodup_append'.1 hnodup).2.2 hmem List.mem_cons_self

end Models

end Sparring.Table
