import Mathlib.Data.List.TakeWhile
import Sparring.Text.Blank

/-!
# Words between blanks

Blanks at the ends of a text do not matter for its words, so a text that is a single word once it is
trimmed has that word and no other (`words_of_trimBlank`). Words that are written with a space
between each two are the words of what has been written (`words_intercalate`).
-/

namespace Sparring

variable {cs word blanks begun : List Char}

theorem words_blanks (h : ∀ c ∈ blanks, isBlank c = true) (rest : List Char) :
    words (blanks ++ rest) = words rest := by
  induction blanks with
  | nil => rfl
  | cons c blanks ih =>
    rw [List.cons_append, words, wordsFrom, if_pos (h c List.mem_cons_self)]
    exact ih fun d hd => h d (List.mem_cons_of_mem c hd)

/-- A word that has been begun ends with the blanks after it. -/
theorem wordsFrom_blanks (h : ∀ c ∈ blanks, isBlank c = true) :
    wordsFrom begun blanks = consWord begun.reverse [] := by
  cases blanks with
  | nil => rfl
  | cons c blanks =>
    have hnone : words (blanks ++ []) = [] := words_blanks (fun d hd => h d (by simp [hd])) []
    rw [List.append_nil] at hnone
    rw [wordsFrom, if_pos (h c List.mem_cons_self), ← words, hnone]

theorem wordsFrom_word (h : ∀ c ∈ word, isBlank c = false) (rest : List Char) :
    wordsFrom begun (word ++ rest) = wordsFrom (word.reverse ++ begun) rest := by
  induction word generalizing begun with
  | nil => rfl
  | cons c word ih =>
    rw [List.cons_append, wordsFrom, if_neg (by simp [h c]), ih fun d hd =>
      h d (List.mem_cons_of_mem c hd), List.reverse_cons, List.append_assoc]
    rfl

/-- A text is what is left of it when it is trimmed, between blanks. -/
theorem exists_blanks (cs : List Char) : ∃ front back, cs = front ++ (trimBlank cs ++ back) ∧
    (∀ c ∈ front, isBlank c = true) ∧ ∀ c ∈ back, isBlank c = true := by
  refine ⟨cs.takeWhile isBlank, ((cs.dropWhile isBlank).reverse.takeWhile isBlank).reverse, ?_,
    fun c hc => List.mem_takeWhile_imp hc,
    fun c hc => List.mem_takeWhile_imp (List.mem_reverse.1 hc)⟩
  rw [trimBlank, trimBlankEnd, ← List.reverse_append, List.takeWhile_append_dropWhile,
    List.reverse_reverse, List.takeWhile_append_dropWhile]

/-- If one word is left of a text when it is trimmed, the text has no other. -/
theorem words_of_trimBlank (hne : trimBlank cs ≠ [])
    (h : ∀ c ∈ trimBlank cs, isBlank c = false) : words cs = [trimBlank cs] := by
  obtain ⟨front, back, hcs, hfront, hback⟩ := exists_blanks cs
  generalize trimBlank cs = word at hcs hne h ⊢
  rw [hcs, words_blanks hfront, words, wordsFrom_word h, wordsFrom_blanks hback]
  simp [consWord, hne]

/-! ## Writing words -/

/-- Whether a text is a single word without blanks around it. -/
def IsWord (word : List Char) : Prop := word ≠ [] ∧ ∀ c ∈ word, isBlank c = false

instance (word : List Char) : Decidable (IsWord word) :=
  decidable_of_iff ((!word.isEmpty && word.all fun c => !isBlank c) = true) (by simp [IsWord])

theorem isBlank_of_isDigit {c : Char} (h : c.isDigit = true) : isBlank c = false := by
  have hrange : 48 ≤ c.toNat ∧ c.toNat ≤ 57 := Char.isDigit_iff_toNat.1 h
  simp only [isBlank, Bool.or_eq_false_iff, Bool.and_eq_false_iff, decide_eq_false_iff_not,
    beq_eq_false_iff_ne, ne_eq]
  omega

theorem words_word (h : IsWord word) : words word = [word] := by
  have hword : words (word ++ []) = wordsFrom (word.reverse ++ []) [] := wordsFrom_word h.2 []
  rw [List.append_nil, List.append_nil] at hword
  rw [hword]
  simp [wordsFrom, consWord, h.1]

theorem words_append_blank (h : IsWord word) {c : Char} (hc : isBlank c = true)
    (rest : List Char) : words (word ++ c :: rest) = word :: words rest := by
  rw [words, wordsFrom_word h.2, List.append_nil, wordsFrom, if_pos hc]
  simp [consWord, h.1, words]

/-- Words are read back from the text that they make with spaces between them. -/
theorem words_intercalate {ws : List String} (h : ∀ w ∈ ws, IsWord w.toList) :
    words (" ".intercalate ws).toList = ws.map String.toList := by
  induction ws with
  | nil => rfl
  | cons w ws ih =>
    have hw := h w List.mem_cons_self
    have hws := ih fun v hv => h v (List.mem_cons_of_mem w hv)
    cases ws with
    | nil => simpa using words_word hw
    | cons v vs =>
      rw [String.intercalate_cons_cons, String.toList_append, String.toList_append,
        List.append_assoc, show " ".toList = [' '] from rfl, List.singleton_append,
        words_append_blank hw (by decide), hws]
      rfl

end Sparring
