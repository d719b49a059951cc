import Sparring.Number.Binary

/-!
# The order of binary values

The values that are not NaN are ordered as their places are, so two of them can always be compared,
and the order is linear but for the two zeros, which are equal without being the same. Of a NaN
nothing holds: whoever is in an order with something is a number.
-/

namespace Sparring.Binary

variable {f : BinaryFormat} {x y z : Binary f}

theorem exists_place (h : x ≠ nan) : ∃ a, x.place? = some a := by
  cases x with
  | nan => exact absurd rfl h
  | ofRank negative rank bounded => exact ⟨_, rfl⟩

theorem ne_nan_of_place {a : Int} (h : x.place? = some a) : x ≠ nan := by
  rintro rfl
  cases h

theorem ne_nan_of_isFinite (h : x.isFinite = true) : x ≠ nan := by
  rintro rfl
  cases h

/-! ## Order -/

protected theorem le_refl (h : x ≠ nan) : x ≤ x := by
  obtain ⟨a, ha⟩ := exists_place h
  exact le_iff.2 ⟨a, a, ha, ha, Int.le_refl a⟩

protected theorem le_of_lt (h : x < y) : x ≤ y := by
  obtain ⟨a, b, ha, hb, hab⟩ := lt_iff.1 h
  exact le_iff.2 ⟨a, b, ha, hb, Int.le_of_lt hab⟩

protected theorem le_trans (hxy : x ≤ y) (hyz : y ≤ z) : x ≤ z := by
  obtain ⟨a, b, ha, hb, hab⟩ := le_iff.1 hxy
  obtain ⟨b', c, hb', hc, hbc⟩ := le_iff.1 hyz
  cases hb.symm.trans hb'
  exact le_iff.2 ⟨a, c, ha, hc, Int.le_trans hab hbc⟩

protected theorem lt_of_le_of_lt (hxy : x ≤ y) (hyz : y < z) : x < z := by
  obtain ⟨a, b, ha, hb, hab⟩ := le_iff.1 hxy
  obtain ⟨b', c, hb', hc, hbc⟩ := lt_iff.1 hyz
  cases hb.symm.trans hb'
  exact lt_iff.2 ⟨a, c, ha, hc, Int.lt_of_le_of_lt hab hbc⟩

protected theorem lt_trans (hxy : x < y) (hyz : y < z) : x < z :=
  Binary.lt_of_le_of_lt (Binary.le_of_lt hxy) hyz

/-- What lies below a value does not lie above it. -/
protected theorem not_le_of_lt (h : x < y) : ¬y ≤ x := by
  intro hyx
  obtain ⟨a, b, ha, hb, hab⟩ := lt_iff.1 h
  obtain ⟨b', a', hb', ha', hba⟩ := le_iff.1 hyx
  cases ha.symm.trans ha'
  cases hb.symm.trans hb'
  omega

protected theorem lt_of_not_le (hx : x ≠ nan) (hy : y ≠ nan) (h : ¬x ≤ y) : y < x := by
  obtain ⟨a, ha⟩ := exists_place hx
  obtain ⟨b, hb⟩ := exists_place hy
  have hab : ¬a ≤ b := fun hab => h (le_iff.2 ⟨a, b, ha, hb, hab⟩)
  exact lt_iff.2 ⟨b, a, hb, ha, Int.not_le.1 hab⟩

theorem not_nan_le : ¬(nan : Binary f) ≤ y := by
  intro h
  obtain ⟨_, _, h, -⟩ := le_iff.1 h
  cases h

/-! ## Equality -/

protected theorem eqv_symm (h : x.eqv y = true) : y.eqv x = true := by
  obtain ⟨a, hx, hy⟩ := eqv_iff.1 h
  exact eqv_iff.2 ⟨a, hy, hx⟩

protected theorem eqv_trans (hxy : x.eqv y = true) (hyz : y.eqv z = true) : x.eqv z = true := by
  obtain ⟨a, hx, hy⟩ := eqv_iff.1 hxy
  obtain ⟨b, hy', hz⟩ := eqv_iff.1 hyz
  cases hy.symm.trans hy'
  exact eqv_iff.2 ⟨a, hx, hz⟩

/-- Equal values are the same, or they are the two zeros. -/
theorem eq_or_zeros_of_eqv (h : x.eqv y = true) :
    x = y ∨ ∃ negative, x = signedZero negative ∧ y = signedZero !negative := by
  obtain ⟨a, hx, hy⟩ := eqv_iff.1 h
  cases x with
  | nan => cases hx
  | ofRank negative rank bounded =>
    cases y with
    | nan => cases hy
    | ofRank negative' rank' bounded' =>
      have hplace := Option.some.inj (hx.trans hy.symm)
      by_cases hsign : negative = negative'
      · subst hsign
        have hrank : rank = rank' := by
          cases negative <;> simp at hplace <;> omega
        subst hrank
        exact Or.inl rfl
      · -- A number and its opposite are both zero.
        have hzero : rank = 0 ∧ rank' = 0 ∧ negative' = !negative := by
          cases negative <;> cases negative' <;> simp at hsign hplace ⊢ <;> omega
        obtain ⟨rfl, rfl, rfl⟩ := hzero
        exact Or.inr ⟨negative, rfl, rfl⟩

end Sparring.Binary
