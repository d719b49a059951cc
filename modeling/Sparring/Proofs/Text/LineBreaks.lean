import Sparring.Number.Shortest
import Sparring.Text.Blank

/-!
# Texts without line breaks

A text that is put together from texts without line breaks has none itself, and numbers are written
without any, whole ones (`not_hasLineBreak_toString`) as well as those of either binary format
(`not_hasLineBreak_toText`).
-/

namespace Sparring

/-- Whether a text has a line break of either kind. -/
def HasLineBreak (text : String) : Prop := text.toList.any isLineBreak = true

instance (text : String) : Decidable (HasLineBreak text) :=
  inferInstanceAs (Decidable (_ = true))

theorem hasLineBreak_append {a b : String} :
    HasLineBreak (a ++ b) ↔ HasLineBreak a ∨ HasLineBreak b := by
  simp only [HasLineBreak, String.toList_append, List.any_append, Bool.or_eq_true]

theorem not_hasLineBreak_of_forall {text : String}
    (h : ∀ c ∈ text.toList, isLineBreak c = false) : ¬HasLineBreak text := by
  rw [HasLineBreak, List.any_eq_true]
  rintro ⟨c, hc, hbreak⟩
  rw [h c hc] at hbreak
  cases hbreak

theorem isLineBreak_of_isDigit {c : Char} (h : c.isDigit = true) : isLineBreak c = false := by
  rcases hbreak : isLineBreak c with _ | _
  · rfl
  · simp only [isLineBreak, Bool.or_eq_true, beq_iff_eq] at hbreak
    rcases hbreak with rfl | rfl <;> cases h

theorem isLineBreak_of_mem_digits {n : Nat} {c : Char} (h : c ∈ digitsOfNat n) :
    isLineBreak c = false :=
  isLineBreak_of_isDigit (Nat.isDigit_of_mem_toDigits (by decide) (by decide) h)

/-- No number has a line break. -/
theorem not_hasLineBreak_toString (n : Nat) : ¬HasLineBreak (toString n) := by
  refine not_hasLineBreak_of_forall fun c hc => isLineBreak_of_mem_digits (n := n) ?_
  rwa [Nat.toString_eq_ofList_toDigits, String.toList_ofList] at hc

theorem isLineBreak_of_mem_positional {digits : Nat} {exponent : Int} {c : Char}
    (h : c ∈ positional digits exponent) : isLineBreak c = false := by
  have hchar : c ∈ digitsOfNat digits ∨ c = '0' ∨ c = '.' := by
    unfold positional at h
    simp only at h
    split at h
    · rcases List.mem_append.1 h with h | h
      · exact Or.inl h
      · exact Or.inr (Or.inl (List.eq_of_mem_replicate h))
    · split at h
      · rcases List.mem_append.1 h with h | h
        · exact Or.inl (List.mem_of_mem_take h)
        · rcases List.mem_cons.1 h with h | h
          · exact Or.inr (Or.inr h)
          · exact Or.inl (List.mem_of_mem_drop h)
      · simp only [List.mem_cons, List.cons_append, List.mem_append] at h
        rcases h with h | h | h | h
        · exact Or.inr (Or.inl h)
        · exact Or.inr (Or.inr h)
        · exact Or.inr (Or.inl (List.eq_of_mem_replicate h))
        · exact Or.inl h
  rcases hchar with h | rfl | rfl
  · exact isLineBreak_of_mem_digits h
  · rfl
  · rfl

theorem not_hasLineBreak_withSign {negative : Bool} {text : List Char}
    (h : ∀ c ∈ text, isLineBreak c = false) : ¬HasLineBreak (Binary.withSign negative text) := by
  refine not_hasLineBreak_of_forall fun c hc => ?_
  rw [Binary.withSign, String.toList_ofList] at hc
  split at hc
  · rcases List.mem_cons.1 hc with rfl | hc
    · rfl
    · exact h c hc
  · exact h c hc

theorem not_hasLineBreak_toText {f : BinaryFormat} (x : Binary f) : ¬HasLineBreak x.toText := by
  unfold Binary.toText
  split
  · decide
  · split
    · exact not_hasLineBreak_withSign (by simp [isLineBreak])
    · split
      · exact not_hasLineBreak_withSign (by simp [isLineBreak])
      · exact not_hasLineBreak_withSign fun c hc => isLineBreak_of_mem_positional hc

/-- Words without line breaks make a line. -/
theorem not_hasLineBreak_intercalate {ws : List String} (h : ∀ w ∈ ws, ¬HasLineBreak w) :
    ¬HasLineBreak (" ".intercalate ws) := by
  induction ws with
  | nil => decide
  | cons w ws ih =>
    have hws := ih fun v hv => h v (List.mem_cons_of_mem w hv)
    cases ws with
    | nil => simpa using h w List.mem_cons_self
    | cons v vs =>
      rw [String.intercalate_cons_cons, hasLineBreak_append, hasLineBreak_append]
      rintro ((hw | hspace) | hrest)
      · exact h w List.mem_cons_self hw
      · exact absurd hspace (by decide)
      · exact hws hrest

end Sparring
