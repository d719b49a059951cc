import Mathlib.Data.List.Basic
import Sparring.Move

/-!
# Texts of moves

A text is read as a move exactly if it is the text of the move, but that the letter of a new piece
may be in either case (`readChars_eq_ok`). Each part of a text has its own lemma of this kind: a
square is read from its letter and its digit only, and a piece from its letter in either case.
-/

namespace Sparring

namespace Square

variable {cs : List Char} {s : Square}

theorem toNat_fileLetter (file : Fin 8) : (fileLetter file).toNat = 'a'.toNat + file := by
  decide +revert

theorem toNat_rankDigit (rank : Fin 8) : (rankDigit rank).toNat = '1'.toNat + rank := by
  decide +revert

theorem length_chars (s : Square) : s.chars.length = 2 := rfl

theorem ascii_chars (s : Square) : s.chars.all (·.toNat < 128) = true := by
  have hfile := toNat_fileLetter s.file
  have hrank := toNat_rankDigit s.rank
  simp only [chars, List.all_cons, List.all_nil, Bool.and_true, Bool.and_eq_true,
    decide_eq_true_eq]
  simp only [Char.reduceToNat] at hfile hrank
  omega

/-- A square is read from its own text. -/
theorem ofChars?_eq_some : ofChars? cs = some s ↔ cs = s.chars := by
  constructor
  · intro h
    unfold ofChars? at h
    split at h
    next file rank =>
      split at h
      next hle =>
        unfold new? at h
        split at h
        next hlt =>
          cases h
          have hfile : 'a'.toNat ≤ file.toNat := hle.1
          have hrank : '1'.toNat ≤ rank.toNat := hle.2
          simp only [chars, fileLetter, rankDigit, Nat.add_sub_cancel' hfile,
            Nat.add_sub_cancel' hrank, Char.ofNat_toNat]
        · cases h
      · cases h
    · cases h
  · rintro rfl
    have hfile : 'a' ≤ fileLetter s.file := by
      change 'a'.toNat ≤ (fileLetter s.file).toNat
      rw [toNat_fileLetter]
      exact Nat.le_add_right _ _
    have hrank : '1' ≤ rankDigit s.rank := by
      change '1'.toNat ≤ (rankDigit s.rank).toNat
      rw [toNat_rankDigit]
      exact Nat.le_add_right _ _
    rw [chars, ofChars?, if_pos ⟨hfile, hrank⟩, toNat_fileLetter, toNat_rankDigit,
      Nat.add_sub_cancel_left, Nat.add_sub_cancel_left, new?, dif_pos ⟨s.file.2, s.rank.2⟩]

theorem read_eq_ok : read cs = .ok s ↔ cs = s.chars := by
  rw [← ofChars?_eq_some, read]
  cases ofChars? cs <;> simp

end Square

namespace Promotion

/-- A piece is read from its letter in either case. -/
theorem read_eq_ok {c : Char} {p : Promotion} : read c = .ok p ↔ c.toLower = p.letter := by
  unfold read
  split
  iterate 4 next h => cases p <;> simp [h, letter]
  next hb hn hq hr =>
    refine iff_of_false (fun h => by cases h) fun h => ?_
    cases p with
    | bishop => exact hb h
    | knight => exact hn h
    | queen => exact hq h
    | rook => exact hr h

theorem ascii_of_toLower {c : Char} {p : Promotion} (h : c.toLower = p.letter) :
    c.toNat < 128 := by
  have hletter : p.letter.toNat < 128 := by cases p <;> decide
  unfold Char.toLower at h
  split at h
  next hupper =>
    have hle : c.toNat ≤ 'Z'.toNat := hupper.2
    exact Nat.lt_of_le_of_lt hle (by decide)
  · rwa [h]

end Promotion

namespace Move

theorem readPromotion_eq_ok {cs : List Char} (h : cs.length ≤ 1) {p : Option Promotion} :
    readPromotion cs = .ok p ↔ cs.map Char.toLower = (p.map Promotion.letter).toList := by
  rcases cs with _ | ⟨c, _ | ⟨d, cs⟩⟩
  · cases p <;> simp [readPromotion]
  · have hread := fun p => @Promotion.read_eq_ok c p
    cases p with
    | none =>
      simp only [readPromotion]
      cases Promotion.read c <;> simp [Except.map]
    | some p =>
      simp only [readPromotion, List.map_cons, List.map_nil, Option.map_some, Option.toList_some,
        List.cons.injEq, and_true, ← hread]
      cases Promotion.read c <;> simp [Except.map]
  · simp at h

/-- What is read of the parts of a text is what is read of the text. -/
theorem readChars_eq_ok_of_parts {cs : List Char} {m : Move}
    (h : cs.all (·.toNat < 128) ∧ (cs.length = 4 ∨ cs.length = 5)) : readChars cs = .ok m ↔
      Square.read (cs.take 2) = .ok m.source ∧ Square.read ((cs.drop 2).take 2) = .ok m.target ∧
        readPromotion (cs.drop 4) = .ok m.promotion := by
  rw [readChars, if_pos h]
  obtain ⟨source, target, promotion⟩ := m
  cases Square.read (cs.take 2) <;> cases Square.read ((cs.drop 2).take 2) <;>
    cases readPromotion (cs.drop 4) <;> simp [bind, Except.bind, pure, Except.pure]

/-- A text is read as a move if it is the text of the move, the letter of a new piece in either
case, and only then. -/
theorem readChars_eq_ok {cs : List Char} {m : Move} : readChars cs = .ok m ↔
    ∃ letter, cs = m.source.chars ++ m.target.chars ++ letter ∧
      letter.map Char.toLower = (m.promotion.map Promotion.letter).toList := by
  constructor
  · intro h
    by_cases hshape : cs.all (·.toNat < 128) ∧ (cs.length = 4 ∨ cs.length = 5)
    · obtain ⟨hsource, htarget, hpromotion⟩ := (readChars_eq_ok_of_parts hshape).1 h
      rw [Square.read_eq_ok] at hsource htarget
      have hlength : (cs.drop 4).length ≤ 1 := by
        rw [List.length_drop]
        omega
      refine ⟨cs.drop 4, ?_, (readPromotion_eq_ok hlength).1 hpromotion⟩
      have hrest : cs.drop 4 = (cs.drop 2).drop 2 := by rw [List.drop_drop]
      rw [← hsource, ← htarget, hrest, List.append_assoc, List.take_append_drop,
        List.take_append_drop]
    · rw [readChars, if_neg hshape] at h
      cases h
  · rintro ⟨letter, rfl, hletter⟩
    -- What is left after two squares is one letter at most, so the text has a shape that is read.
    have hlength : letter.length = (m.promotion.map Promotion.letter).toList.length := by
      rw [← hletter, List.length_map]
    have hle : (m.promotion.map Promotion.letter).toList.length ≤ 1 := by
      cases m.promotion <;> simp
    have hascii : letter.all (·.toNat < 128) = true := by
      refine List.all_eq_true.2 fun c hc => decide_eq_true ?_
      have hlower := hletter ▸ List.mem_map_of_mem (f := Char.toLower) hc
      obtain ⟨p, -, hp⟩ := Option.map_eq_some_iff.1 (Option.mem_toList.1 hlower)
      exact Promotion.ascii_of_toLower hp.symm
    have hshape : (m.source.chars ++ m.target.chars ++ letter).all (·.toNat < 128) ∧
        ((m.source.chars ++ m.target.chars ++ letter).length = 4 ∨
          (m.source.chars ++ m.target.chars ++ letter).length = 5) := by
      refine ⟨by simp only [List.all_append, Square.ascii_chars, hascii, Bool.and_self], ?_⟩
      simp only [List.length_append, Square.length_chars]
      omega
    rw [readChars_eq_ok_of_parts hshape, Square.read_eq_ok, Square.read_eq_ok]
    exact ⟨rfl, rfl, (readPromotion_eq_ok (show letter.length ≤ 1 by omega)).2 hletter⟩

end Move

end Sparring
