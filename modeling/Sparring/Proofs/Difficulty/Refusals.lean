import Mathlib.Data.List.Induction
import Mathlib.Data.List.Pairwise
import Sparring.Difficulty.Stock
import Sparring.Proofs.Difficulty.Faults

/-!
# Rows that are refused

A list of rows is a table if it is not empty and its rows are in order, and the table has these very
rows. Of any other list the error is about the first row that something can be held against, and of
several such things it is the one that goes before the others (`rows_account`).

What can be held against a row depends on the rows before it (`Offence`), and nothing can be exactly
if the rows are in order up to and including it (`blameless_iff`). The search carries only the last
threshold and the first temperature of each model instead of those rows. That is enough as long as
they are in order: a row whose temperature equals the first one of its model then equals them all.
-/

namespace Sparring

/-- Which error is told where there are several: the one that comes first here. -/
def TableError.precedence : TableError → Nat
  | empty => 0
  | notFinite _ _ => 1
  | notIncreasing _ _ => 2
  | conflictingTemperature _ _ _ => 3

namespace Table

/-- What can be held against a row that comes after others. -/
inductive Offence (before : List Bucket) (row : Bucket) : TableError → Prop
  | notFinite (h : row.threshold.isFinite = false) :
      Offence before row (.notFinite before.length row.threshold)
  | notIncreasing {last : Bucket} (hlast : before.getLast? = some last)
      (h : ¬last.threshold < row.threshold) :
      Offence before row (.notIncreasing before.length row.threshold)
  /-- The temperature differs from that of any earlier row, and is told with the earliest one's. -/
  | conflicting {first earlier : Bucket}
      (hfirst : before.find? (·.profile.model = row.profile.model) = some first)
      (hearlier : earlier ∈ before) (hmodel : earlier.profile.model = row.profile.model)
      (h : ¬earlier.profile.temperature.eqv row.profile.temperature = true) :
      Offence before row (.conflictingTemperature row.profile.model first.profile.temperature
        row.profile.temperature)

/-- Whether nothing can be held against any row. -/
def Blameless (rows : List Bucket) : Prop :=
  ∀ before row after, rows = before ++ row :: after → ∀ e, ¬Offence before row e

/-- The error that is told of a row. -/
structure Told (before : List Bucket) (row : Bucket) (e : TableError) : Prop where
  offence : Offence before row e
  foremost : ∀ other, Offence before row other → e.precedence ≤ other.precedence

variable {before : List Bucket} {row : Bucket} {e e' : TableError}

theorem Told.unique (h : Told before row e) (h' : Told before row e') : e = e' := by
  have hle := h.foremost e' h'.offence
  have hge := h'.foremost e h.offence
  cases h.offence with
  | notFinite =>
    cases h'.offence with
    | notFinite => rfl
    | notIncreasing | conflicting => simp [TableError.precedence] at hge
  | notIncreasing =>
    cases h'.offence with
    | notIncreasing => rfl
    | notFinite | conflicting => simp [TableError.precedence] at hle hge
  | conflicting hfirst =>
    cases h'.offence with
    | conflicting hfirst' =>
      obtain rfl := Option.some.inj (hfirst.symm.trans hfirst')
      rfl
    | notFinite | notIncreasing => simp [TableError.precedence] at hle

/-! ## Rows that nothing can be held against -/

theorem not_offence_iff : (∀ e, ¬Offence before row e) ↔
    row.threshold.isFinite = true ∧
      (∀ last ∈ before.getLast?, last.threshold < row.threshold) ∧
      ∀ earlier ∈ before, earlier.profile.model = row.profile.model →
        earlier.profile.temperature.eqv row.profile.temperature = true := by
  constructor
  · intro h
    refine ⟨?_, fun last hlast => ?_, fun earlier hearlier hmodel => ?_⟩
    · by_contra hfinite
      exact h _ (.notFinite (eq_false_of_ne_true hfinite))
    · by_contra hlt
      exact h _ (.notIncreasing hlast hlt)
    · by_contra heqv
      have hsome : (before.find? (·.profile.model = row.profile.model)).isSome = true := by
        rw [List.find?_isSome]
        exact ⟨earlier, hearlier, decide_eq_true hmodel⟩
      obtain ⟨first, hfirst⟩ := Option.isSome_iff_exists.1 hsome
      exact h _ (.conflicting hfirst hearlier hmodel heqv)
  · rintro ⟨hfinite, hincreasing, hagreed⟩ e he
    cases he with
    | notFinite h => simp [hfinite] at h
    | notIncreasing hlast h => exact h (hincreasing _ hlast)
    | conflicting _ hearlier hmodel h => exact h (hagreed _ hearlier hmodel)

/-- A row that nothing can be held against keeps the rows in order, and no other does. -/
theorem inOrder_concat :
    InOrder (before ++ [row]) ↔ InOrder before ∧ ∀ e, ¬Offence before row e := by
  rw [not_offence_iff]
  constructor
  · intro h
    obtain ⟨hincreasing, -, habove⟩ := List.pairwise_append.1 h.increasing
    obtain ⟨hagreed, -, hrow⟩ := List.pairwise_append.1 h.agreed
    have hmem : row ∈ [row] := List.mem_singleton_self row
    refine ⟨⟨fun earlier hearlier => h.finite earlier (List.mem_append_left _ hearlier),
      hincreasing, hagreed⟩, h.finite row (List.mem_append_right _ hmem), fun last hlast => ?_,
      fun earlier hearlier => hrow earlier hearlier row hmem⟩
    exact habove last (List.mem_of_getLast? hlast) row hmem
  · rintro ⟨h, hfinite, hlast, hagreed⟩
    have habove : ∀ earlier ∈ before, earlier.threshold < row.threshold := by
      intro earlier hearlier
      rcases List.eq_nil_or_concat' before with rfl | ⟨init, last, rfl⟩
      · exact absurd hearlier List.not_mem_nil
      · have hrow := hlast last List.getLast?_concat
        rcases List.mem_append.1 hearlier with hinit | hsame
        · have hlt := (List.pairwise_append.1 h.increasing).2.2 earlier hinit last
            (List.mem_singleton_self last)
          exact Binary.lt_trans hlt hrow
        · rw [List.mem_singleton.1 hsame]
          exact hrow
    refine ⟨?_, List.pairwise_append.2 ⟨h.increasing, List.pairwise_singleton _ row, ?_⟩,
      List.pairwise_append.2 ⟨h.agreed, List.pairwise_singleton _ row, ?_⟩⟩
    · simpa [or_imp, forall_and, hfinite] using h.finite
    · simpa using habove
    · simpa using hagreed

theorem blameless_concat :
    Blameless (before ++ [row]) ↔ Blameless before ∧ ∀ e, ¬Offence before row e := by
  constructor
  · intro h
    refine ⟨fun before' row' after hsplit => ?_, h before row [] rfl⟩
    exact h before' row' (after ++ [row]) (by simp [hsplit])
  · rintro ⟨h, hrow⟩ before' row' after hsplit
    rcases List.eq_nil_or_concat' after with rfl | ⟨after, last, rfl⟩
    · obtain ⟨rfl, hsame⟩ := List.append_inj' hsplit rfl
      obtain rfl := List.head_eq_of_cons_eq hsame
      exact hrow
    · have hsplit' : before ++ [row] = (before' ++ row' :: after) ++ [last] := by
        simpa using hsplit
      exact h before' row' after (List.append_inj' hsplit' rfl).1

/-- Rows are in order exactly if nothing can be held against any of them. -/
theorem blameless_iff {rows : List Bucket} : Blameless rows ↔ InOrder rows := by
  induction rows using List.reverseRecOn with
  | nil => simp [Blameless, InOrder.mk]
  | append_singleton before row ih => rw [blameless_concat, inOrder_concat, ih]

/-! ## What the search carries -/

/-- Whether the temperatures that have been noted are those of the first row of each model. -/
def Notes (seen : List (String × Single)) (before : List Bucket) : Prop :=
  ∀ model, seen.lookup model =
    (before.find? (·.profile.model = model)).map (·.profile.temperature)

variable {seen : List (String × Single)} {first : Bucket}

/-- A row that agrees with the first row of its model agrees with all of them. -/
theorem eqv_of_first (hbefore : InOrder before)
    (hfirst : before.find? (·.profile.model = row.profile.model) = some first)
    (heqv : first.profile.temperature.eqv row.profile.temperature = true) {earlier : Bucket}
    (hearlier : earlier ∈ before) (hmodel : earlier.profile.model = row.profile.model) :
    earlier.profile.temperature.eqv row.profile.temperature = true := by
  by_cases hsame : first = earlier
  · rwa [← hsame]
  · have hfirstModel : first.profile.model = row.profile.model := by
      simpa using List.find?_some hfirst
    have : Std.Symm fun row later : Bucket => row.profile.model = later.profile.model →
        row.profile.temperature.eqv later.profile.temperature = true :=
      ⟨fun _ _ h hmodel => Binary.eqv_symm (h hmodel.symm)⟩
    have hagreed := hbefore.agreed.forall (List.mem_of_find?_eq_some hfirst) hearlier hsame
      (hfirstModel.trans hmodel.symm)
    exact Binary.eqv_trans (Binary.eqv_symm hagreed) heqv

/-- The threshold does not lie above the last one exactly if the search sees it so. -/
theorem any_le_iff (hbefore : InOrder before) (hfinite : row.threshold.isFinite = true) :
    (before.getLast?.map (·.threshold)).any (row.threshold.le ·) = true ↔
      ∃ last, before.getLast? = some last ∧ ¬last.threshold < row.threshold := by
  cases hlast : before.getLast? with
  | none => simp
  | some last =>
    have hnumber := Binary.ne_nan_of_isFinite (hbefore.finite last (List.mem_of_getLast? hlast))
    have hle : row.threshold.le last.threshold = true ↔ ¬last.threshold < row.threshold := by
      constructor
      · intro hle hlt
        exact Binary.not_le_of_lt hlt hle
      · intro hlt
        by_contra hle
        exact hlt (Binary.lt_of_not_le (Binary.ne_nan_of_isFinite hfinite) hnumber hle)
    simpa using hle

theorem faultFrom?_of_offence (rest : List Bucket) (hbefore : InOrder before)
    (hseen : Notes seen before) (h : Offence before row e) : ∃ told, Told before row told ∧
      faultFrom? before.length (before.getLast?.map (·.threshold)) seen (row :: rest) =
        some told := by
  rw [faultFrom?]
  -- In the order of the search: what is found first takes precedence over all else.
  by_cases hfinite : row.threshold.isFinite = true
  · rw [if_neg (not_not.2 hfinite)]
    by_cases hany : (before.getLast?.map (·.threshold)).any (row.threshold.le ·) = true
    · obtain ⟨last, hlast, hlt⟩ := (any_le_iff hbefore hfinite).1 hany
      refine ⟨_, ⟨.notIncreasing hlast hlt, fun other hother => ?_⟩, if_pos hany⟩
      cases hother with
      | notFinite h => simp [hfinite] at h
      | notIncreasing | conflicting => simp [TableError.precedence]
    · rw [if_neg hany]
      cases h with
      | notFinite h => simp [hfinite] at h
      | notIncreasing hlast h => exact absurd ((any_le_iff hbefore hfinite).2 ⟨_, hlast, h⟩) hany
      | @conflicting first earlier hfirst hearlier hmodel h =>
        have hlookup : seen.lookup row.profile.model = some first.profile.temperature := by
          rw [hseen, hfirst]
          rfl
        have hdiffers : ¬first.profile.temperature.eqv row.profile.temperature = true :=
          fun heqv => h (eqv_of_first hbefore hfirst heqv hearlier hmodel)
        simp only [hlookup, if_neg hdiffers]
        refine ⟨_, ⟨.conflicting hfirst hearlier hmodel h, fun other hother => ?_⟩, rfl⟩
        cases hother with
        | notFinite h => simp [hfinite] at h
        | notIncreasing hlast h =>
          exact absurd ((any_le_iff hbefore hfinite).2 ⟨_, hlast, h⟩) hany
        | conflicting => simp [TableError.precedence]
  · rw [if_pos hfinite]
    refine ⟨_, ⟨.notFinite (eq_false_of_ne_true hfinite), fun other hother => ?_⟩, rfl⟩
    cases hother <;> simp [TableError.precedence]

theorem faultFrom?_of_blameless (rest : List Bucket) (hbefore : InOrder before)
    (hseen : Notes seen before) (h : ∀ e, ¬Offence before row e) :
    ∃ seen', Notes seen' (before ++ [row]) ∧
      faultFrom? before.length (before.getLast?.map (·.threshold)) seen (row :: rest) =
        faultFrom? (before ++ [row]).length ((before ++ [row]).getLast?.map (·.threshold)) seen'
          rest := by
  obtain ⟨hfinite, hincreasing, hagreed⟩ := not_offence_iff.1 h
  have hany : ¬(before.getLast?.map (·.threshold)).any (row.threshold.le ·) = true := by
    intro hany
    obtain ⟨last, hlast, hlt⟩ := (any_le_iff hbefore hfinite).1 hany
    exact hlt (hincreasing last hlast)
  rw [faultFrom?, if_neg (not_not.2 hfinite), if_neg hany, List.length_append,
    List.getLast?_concat]
  cases hfirst : before.find? (·.profile.model = row.profile.model) with
  | some first =>
    have hlookup : seen.lookup row.profile.model = some first.profile.temperature := by
      rw [hseen, hfirst]
      rfl
    have hmodel : first.profile.model = row.profile.model := by simpa using List.find?_some hfirst
    refine ⟨seen, fun model => ?_, ?_⟩
    · -- The model of the row is known, so the row is not the first one of any model.
      rw [hseen, List.find?_append]
      by_cases hsame : row.profile.model = model
      · rw [← hsame, hfirst]
        rfl
      · simp [hsame]
    · simp only [hlookup, if_pos (hagreed first (List.mem_of_find?_eq_some hfirst) hmodel)]
      rfl
  | none =>
    have hlookup : seen.lookup row.profile.model = none := by
      rw [hseen, hfirst]
      rfl
    refine ⟨(row.profile.model, row.profile.temperature) :: seen, fun model => ?_, ?_⟩
    · rw [List.lookup_cons, List.find?_append]
      by_cases hsame : row.profile.model = model
      · subst hsame
        simp [hfirst]
      · have hother : (model == row.profile.model) = false :=
          beq_eq_false_iff_ne.2 fun h => hsame h.symm
        simp [hother, hsame, hseen model]
    · simp only [hlookup]
      rfl

/-- From any row on the search finds what is told of the first row that something can be held
against. -/
theorem faultFrom?_eq_some_iff {rows : List Bucket} (hbefore : InOrder before)
    (hseen : Notes seen before) :
    faultFrom? before.length (before.getLast?.map (·.threshold)) seen rows = some e ↔
      ∃ init row rest, rows = init ++ row :: rest ∧ InOrder (before ++ init) ∧
        Told (before ++ init) row e := by
  induction rows generalizing before seen with
  | nil => simp [faultFrom?]
  | cons row rest ih =>
    by_cases hrow : ∃ other, Offence before row other
    · obtain ⟨other, hother⟩ := hrow
      obtain ⟨told, htold, heq⟩ := faultFrom?_of_offence rest hbefore hseen hother
      rw [heq]
      constructor
      · intro h
        obtain rfl := Option.some.inj h
        exact ⟨[], row, rest, rfl, by simpa using hbefore, by simpa using htold⟩
      · rintro ⟨init, row', rest', hsplit, hinit, htold'⟩
        cases init with
        | nil =>
          obtain ⟨rfl, -⟩ := List.cons.inj hsplit
          rw [List.append_nil] at htold'
          rw [htold.unique htold']
        | cons first init =>
          -- The rows before the one that is told of would not be in order.
          obtain ⟨rfl, -⟩ := List.cons.inj hsplit
          have hblameless := blameless_iff.2 hinit
          exact absurd hother (hblameless before row init rfl other)
    · have hnone := not_exists.1 hrow
      obtain ⟨seen', hseen', heq⟩ := faultFrom?_of_blameless rest hbefore hseen hnone
      rw [heq, ih (inOrder_concat.2 ⟨hbefore, hnone⟩) hseen']
      constructor
      · rintro ⟨init, row', rest', rfl, hinit, htold⟩
        exact ⟨row :: init, row', rest', rfl, by simpa using hinit, by simpa using htold⟩
      · rintro ⟨init, row', rest', hsplit, hinit, htold⟩
        cases init with
        | nil =>
          obtain ⟨rfl, -⟩ := List.cons.inj hsplit
          rw [List.append_nil] at htold
          exact absurd htold.offence (hnone e)
        | cons first init =>
          obtain ⟨rfl, rfl⟩ := List.cons.inj hsplit
          exact ⟨init, row', rest', rfl, by simpa using hinit, by simpa using htold⟩

/-! ## The account -/

theorem fault?_eq_none_iff {rows : List Bucket} :
    fault? rows = none ↔ rows ≠ [] ∧ InOrder rows := by
  cases rows with
  | nil => simp [fault?]
  | cons row rest =>
    rw [fault?, faultFrom?_eq_none_iff]
    · simp [Agrees]
    · simp

theorem fault?_eq_some_iff {rows : List Bucket} : fault? rows = some e ↔
    rows = [] ∧ e = .empty ∨ ∃ before row after, rows = before ++ row :: after ∧
      Blameless before ∧ Told before row e := by
  have hempty : InOrder [] := ⟨by simp, .nil, .nil⟩
  cases rows with
  | nil => simp [fault?, eq_comm]
  | cons first rest =>
    have hsearch := @faultFrom?_eq_some_iff [] e [] (first :: rest) hempty fun model => rfl
    simp only [List.nil_append] at hsearch
    rw [fault?]
    · simp only [blameless_iff]
      simpa using hsearch
    · simp

theorem ofRows_eq_ok {rows : List Bucket} {t : Table} : ofRows rows = .ok t ↔ t.rows = rows := by
  obtain ⟨trows, hfaultless⟩ := t
  unfold ofRows
  constructor
  · intro h
    split at h
    · cases h
      rfl
    · cases h
  · rintro rfl
    split
    · rfl
    · rename_i e h
      cases hfaultless.symm.trans h

theorem ofRows_eq_error {rows : List Bucket} : ofRows rows = .error e ↔ fault? rows = some e := by
  unfold ofRows
  split <;> simp_all

/-- What a list of rows must be to be a table. -/
structure Acceptable (rows : List Bucket) : Prop where
  nonempty : rows ≠ []
  finite : ∀ row ∈ rows, row.threshold.isFinite = true
  /-- Every threshold is greater than the one before it. -/
  increasing : ∀ i (h : i + 1 < rows.length), rows[i].threshold < rows[i + 1].threshold
  /-- Any two rows with one model have temperatures that compare equal. -/
  agreed : ∀ i j (hi : i < rows.length) (hj : j < rows.length), i ≠ j →
    rows[i].profile.model = rows[j].profile.model →
    rows[i].profile.temperature.eqv rows[j].profile.temperature = true

theorem acceptable_iff {rows : List Bucket} : Acceptable rows ↔ rows ≠ [] ∧ InOrder rows := by
  have : Trans (fun row later : Bucket => row.threshold < later.threshold)
      (fun row later : Bucket => row.threshold < later.threshold)
      fun row later : Bucket => row.threshold < later.threshold := ⟨Binary.lt_trans⟩
  constructor
  · intro h
    refine ⟨h.nonempty, h.finite, ?_, ?_⟩
    · rw [← List.isChain_iff_pairwise, List.isChain_iff_getElem]
      exact h.increasing
    · rw [List.pairwise_iff_getElem]
      intro i j hi hj hij
      exact h.agreed i j hi hj (Nat.ne_of_lt hij)
  · rintro ⟨hnonempty, h⟩
    refine ⟨hnonempty, h.finite, ?_, ?_⟩
    · rw [← List.isChain_iff_getElem (R := fun row later : Bucket =>
        row.threshold < later.threshold), List.isChain_iff_pairwise]
      exact h.increasing
    · intro i j hi hj hij hmodel
      rcases Nat.lt_or_gt_of_ne hij with hlt | hlt
      · exact List.pairwise_iff_getElem.1 h.agreed i j hi hj hlt hmodel
      · exact Binary.eqv_symm (List.pairwise_iff_getElem.1 h.agreed j i hj hi hlt hmodel.symm)

/-- Which rows are a table, and what is told of the others. -/
structure RowsAccount (rows : List Bucket) : Prop where
  accepted : (∃ t, ofRows rows = .ok t) ↔ Acceptable rows
  /-- A table has the rows that it was made of. -/
  kept : ∀ t, ofRows rows = .ok t → t.rows = rows
  /-- What is told of other rows is told of the first row that something can be held against. -/
  refused : ∀ e, ofRows rows = .error e ↔
    rows = [] ∧ e = .empty ∨ ∃ before row after, rows = before ++ row :: after ∧
      Blameless before ∧ Told before row e
  /-- A NaN is the temperature of a model with one row only. -/
  single : Acceptable rows → ∀ i j (hi : i < rows.length) (hj : j < rows.length), i ≠ j →
    rows[i].profile.model = rows[j].profile.model → rows[i].profile.temperature ≠ .nan

/-- Rows are a table if they are in order as a whole, and otherwise the first row at fault is told
of. -/
theorem rows_account (rows : List Bucket) : RowsAccount rows := by
  refine ⟨?_, fun t => ofRows_eq_ok.1, fun e => ?_, fun h i j hi hj hij hmodel hnan => ?_⟩
  · rw [acceptable_iff, ← fault?_eq_none_iff]
    constructor
    · rintro ⟨t, ht⟩
      rw [← ofRows_eq_ok.1 ht]
      exact t.faultless
    · intro h
      exact ⟨⟨rows, h⟩, ofRows_eq_ok.2 rfl⟩
  · rw [ofRows_eq_error, fault?_eq_some_iff]
  · obtain ⟨a, ha, -⟩ := Binary.eqv_iff.1 (h.agreed i j hi hj hij hmodel)
    exact Binary.ne_nan_of_place ha hnan

/-- A threshold that is no number is told of before a temperature that conflicts. -/
example : fault? [stockRow 5 1 "maia-1100.pb",
    { stockRow 6 1 "maia-1100.pb" with
      threshold := .nan
      profile := { (stockRow 6 1 "maia-1100.pb").profile with temperature := .nan } }] =
    some (.notFinite 1 .nan) := by
  decide +kernel

end Table

end Sparring
