import Sparring.Http
import Sparring.Proofs.Move
import Sparring.Proofs.Move.Bytes
import Sparring.Proofs.Uci.Handling
import Sparring.Service

/-!
# How moves are spelled

A text is read as a move if it is two squares and at most one letter of a piece, and everything that
is made of the move spells this text again, but with the letter in lower case: its own text and the
answer that it is sent in (`spelling_account`). Of any other text the first part at fault is
reported, be it the text as a whole, a square, or the letter.

Squares and letters are described here by the characters that they may have; that reading accepts
these and no others is checked once for every file, rank and piece.
-/

namespace Sparring

/-! ## Parts of a text -/

/-- Whether a text is a file letter and a rank digit. -/
def IsSquareText (cs : List Char) : Prop :=
  ∃ file ∈ "abcdefgh".toList, ∃ rank ∈ "12345678".toList, cs = [file, rank]

/-- Whether a character names a piece that a pawn can become, in either case. -/
def IsPieceLetter (c : Char) : Prop := c ∈ "bnqrBNQR".toList

instance : DecidablePred IsSquareText := fun cs =>
  decidable_of_iff ("abcdefgh".toList.any fun file => "12345678".toList.any fun rank =>
    cs = [file, rank]) (by simp [IsSquareText])

theorem mem_fileLetters_iff {c : Char} :
    c ∈ "abcdefgh".toList ↔ ∃ file, Square.fileLetter file = c := by
  have hletters : (List.finRange 8).map Square.fileLetter = "abcdefgh".toList := by decide
  rw [← hletters]
  simp

theorem mem_rankDigits_iff {c : Char} :
    c ∈ "12345678".toList ↔ ∃ rank, Square.rankDigit rank = c := by
  have hdigits : (List.finRange 8).map Square.rankDigit = "12345678".toList := by decide
  rw [← hdigits]
  simp

theorem isSquareText_iff {cs : List Char} : IsSquareText cs ↔ ∃ s : Square, cs = s.chars := by
  constructor
  · rintro ⟨_, hfile, _, hrank, rfl⟩
    obtain ⟨file, rfl⟩ := mem_fileLetters_iff.1 hfile
    obtain ⟨rank, rfl⟩ := mem_rankDigits_iff.1 hrank
    exact ⟨⟨file, rank⟩, rfl⟩
  · rintro ⟨s, rfl⟩
    exact ⟨_, mem_fileLetters_iff.2 ⟨s.file, rfl⟩, _, mem_rankDigits_iff.2 ⟨s.rank, rfl⟩, rfl⟩

theorem Square.read_eq_error {cs : List Char} {e : MoveError} :
    Square.read cs = .error e ↔ ¬IsSquareText cs ∧ e = .square (String.ofList cs) := by
  have hread : IsSquareText cs ↔ ∃ s, ofChars? cs = some s := by
    rw [isSquareText_iff]
    exact exists_congr fun s => ofChars?_eq_some.symm
  rw [hread, Square.read]
  cases ofChars? cs <;> simp [eq_comm]

namespace Promotion

theorem exists_letter_iff {c : Char} : (∃ p : Promotion, c = p.letter) ↔ c ∈ "bnqr".toList := by
  constructor
  · rintro ⟨p, rfl⟩
    cases p <;> decide
  · intro h
    have hletters : c = 'b' ∨ c = 'n' ∨ c = 'q' ∨ c = 'r' := by simpa using h
    rcases hletters with rfl | rfl | rfl | rfl
    exacts [⟨bishop, rfl⟩, ⟨knight, rfl⟩, ⟨queen, rfl⟩, ⟨rook, rfl⟩]

theorem isPieceLetter_iff {c : Char} : IsPieceLetter c ↔ ∃ p : Promotion, c.toLower = p.letter := by
  have hlower : "bnqrBNQR".toList.map Char.toLower = "bnqr".toList ++ "bnqr".toList := by decide
  have hupper : ∀ n < 128, (Char.ofNat n).toLower ∈ "bnqr".toList →
      Char.ofNat n ∈ "bnqrBNQR".toList := by decide +kernel
  constructor
  · intro h
    have hmem : c.toLower ∈ "bnqr".toList ++ "bnqr".toList := hlower ▸ List.mem_map_of_mem h
    exact exists_letter_iff.2 ((List.mem_append.1 hmem).elim id id)
  · rintro ⟨p, hp⟩
    have hmem := hupper c.toNat (ascii_of_toLower hp)
    rw [Char.ofNat_toNat] at hmem
    exact hmem (exists_letter_iff.1 ⟨p, hp⟩)

theorem read_eq_error {c : Char} {e : MoveError} :
    read c = .error e ↔ ¬IsPieceLetter c ∧ e = .promotion c := by
  have hread : IsPieceLetter c ↔ ∃ p, read c = .ok p := by
    rw [isPieceLetter_iff]
    exact exists_congr fun p => read_eq_ok.symm
  have hcause : ∀ e, read c = .error e → e = .promotion c := by
    intro e he
    unfold read at he
    split at he <;> cases he
    rfl
  rw [hread]
  cases h : read c with
  | ok p => simp
  | error e' => simp [hcause e' h, eq_comm]

theorem toLower_letter (p : Promotion) : p.letter.toLower = p.letter := by
  cases p <;> rfl

end Promotion

namespace Move

/-! ## Texts that are moves -/

/-- Whether a text is two squares and at most one letter of a piece. -/
def IsMoveText (cs : List Char) : Prop :=
  ∃ source target letter, cs = source ++ target ++ letter ∧ IsSquareText source ∧
    IsSquareText target ∧ letter.length ≤ 1 ∧ ∀ c ∈ letter, IsPieceLetter c

theorem read_eq_ok {s : String} {m : Move} : read s = .ok m ↔
    ∃ letter, s.toList = m.source.chars ++ m.target.chars ++ letter ∧
      letter.map Char.toLower = (m.promotion.map Promotion.letter).toList :=
  readChars_eq_ok

/-- The letters that are read are those of pieces. -/
theorem exists_promotion_iff {letter : List Char} :
    (∃ promotion : Option Promotion,
        letter.map Char.toLower = (promotion.map Promotion.letter).toList) ↔
      letter.length ≤ 1 ∧ ∀ c ∈ letter, IsPieceLetter c := by
  constructor
  · rintro ⟨promotion, h⟩
    have hlength : letter.length = (promotion.map Promotion.letter).toList.length := by
      rw [← h, List.length_map]
    cases promotion with
    | none => simp_all
    | some p =>
      obtain ⟨c, rfl⟩ := List.length_eq_one_iff.1 hlength
      have hc : c.toLower = p.letter := by simpa using h
      simpa using Promotion.isPieceLetter_iff.2 ⟨p, hc⟩
  · rintro ⟨hlength, hletter⟩
    match letter, hlength, hletter with
    | [], _, _ => exact ⟨none, rfl⟩
    | [c], _, hletter =>
      obtain ⟨p, hp⟩ := Promotion.isPieceLetter_iff.1 (hletter c (List.mem_singleton_self c))
      exact ⟨some p, by simp [hp]⟩

theorem exists_read_iff {s : String} : (∃ m, read s = .ok m) ↔ IsMoveText s.toList := by
  simp only [read_eq_ok, IsMoveText, isSquareText_iff]
  constructor
  · rintro ⟨m, letter, hsplit, hletter⟩
    obtain ⟨hlength, hpiece⟩ := exists_promotion_iff.1 ⟨m.promotion, hletter⟩
    exact ⟨_, _, letter, hsplit, ⟨m.source, rfl⟩, ⟨m.target, rfl⟩, hlength, hpiece⟩
  · rintro ⟨_, _, letter, hsplit, ⟨source, rfl⟩, ⟨target, rfl⟩, hlength, hpiece⟩
    obtain ⟨promotion, hletter⟩ := exists_promotion_iff.2 ⟨hlength, hpiece⟩
    exact ⟨⟨source, target, promotion⟩, letter, hsplit, hletter⟩

/-- The parts of a text that is read as a move. -/
theorem parts_of_read {cs : List Char} {m : Move} (h : readChars cs = .ok m) :
    cs.take 2 = m.source.chars ∧ (cs.drop 2).take 2 = m.target.chars ∧
      (cs.drop 4).map Char.toLower = (m.promotion.map Promotion.letter).toList := by
  obtain ⟨letter, rfl, hletter⟩ := readChars_eq_ok.1 h
  exact ⟨rfl, rfl, hletter⟩

/-- A move is read from its own text. -/
theorem read_text (m : Move) : read m.text = .ok m := by
  rw [read_eq_ok, text, String.toList_ofList]
  refine ⟨_, rfl, ?_⟩
  cases m.promotion with
  | none => rfl
  | some p => simp [Promotion.toLower_letter]

/-! ## Texts that are not -/

theorem readPromotion_eq_error {cs : List Char} (h : cs.length ≤ 1) {e : MoveError} :
    readPromotion cs = .error e ↔ ∃ c, cs = [c] ∧ ¬IsPieceLetter c ∧ e = .promotion c := by
  match cs, h with
  | [], _ => simp [readPromotion]
  | [c], _ =>
    simp only [List.cons.injEq, and_true, exists_eq_left', ← Promotion.read_eq_error, readPromotion]
    cases Promotion.read c <;> simp [Except.map]

/-- The error is about the text as a whole, or about the first of its parts that is at fault. -/
theorem read_eq_error {s : String} {e : MoveError} : read s = .error e ↔
    ¬HasShape s ∧ e = .move s ∨ HasShape s ∧
      (¬IsSquareText (s.toList.take 2) ∧ e = .square (String.ofList (s.toList.take 2)) ∨
        IsSquareText (s.toList.take 2) ∧
          (¬IsSquareText ((s.toList.drop 2).take 2) ∧
              e = .square (String.ofList ((s.toList.drop 2).take 2)) ∨
            IsSquareText ((s.toList.drop 2).take 2) ∧
              ∃ c, s.toList.drop 4 = [c] ∧ ¬IsPieceLetter c ∧ e = .promotion c)) := by
  have hsquare : ∀ cs, IsSquareText cs ↔ ∃ square, Square.read cs = .ok square := by
    intro cs
    rw [isSquareText_iff]
    exact exists_congr fun square => Square.read_eq_ok.symm
  unfold read readChars
  -- The reading goes from left to right, and stops at the first part at fault.
  by_cases hshape : HasShape s
  · have hlength : (s.toList.drop 4).length ≤ 1 := by
      have := (hasShape_iff.1 hshape).2
      rw [List.length_drop]
      omega
    rw [if_pos (hasShape_iff.1 hshape), ← readPromotion_eq_error hlength, ← Square.read_eq_error,
      ← Square.read_eq_error, hsquare, hsquare]
    simp only [hshape, not_true_eq_false, false_and, false_or, true_and]
    cases Square.read (s.toList.take 2) with
    | error e' => simp [bind, Except.bind]
    | ok source =>
      cases Square.read ((s.toList.drop 2).take 2) with
      | error e' => simp [bind, Except.bind]
      | ok target =>
        cases readPromotion (s.toList.drop 4) <;> simp [bind, Except.bind, pure, Except.pure]
  · rw [if_neg (mt hasShape_iff.2 hshape), String.ofList_toList]
    simp [hshape, eq_comm]

/-! ## Answers -/

/-- The text of an answer with a move, from the parts of the move. -/
def answerText (source target letter : List Char) : List Char :=
  "\x7b\"result\":\x7b\"from\":\"".toList ++ source ++ "\",\"to\":\"".toList ++ target ++
    "\"".toList ++
    (if letter = [] then [] else ",\"promotion\":\"".toList ++ letter ++ "\"".toList) ++
    "\x7d\x7d".toList

/-- A text without characters to escape stands between quotes as it is. -/
theorem quote_of_plain {cs : List Char} (h : ∀ c ∈ cs, Json.escapeChar c = [c]) :
    Json.quote (String.ofList cs) = "\"" ++ String.ofList cs ++ "\"" := by
  have hplain : cs.flatMap Json.escapeChar = cs := by
    induction cs with
    | nil => rfl
    | cons c cs ih =>
      obtain ⟨hc, hcs⟩ := List.forall_mem_cons.1 h
      rw [List.flatMap_cons, hc, ih hcs]
      rfl
  apply String.toList_inj.1
  simp [Json.quote, hplain]

theorem quote_square (s : Square) : Json.quote s.text = "\"" ++ s.text ++ "\"" := by
  have hfile : ∀ file, Json.escapeChar (Square.fileLetter file) = [Square.fileLetter file] := by
    decide
  have hrank : ∀ rank, Json.escapeChar (Square.rankDigit rank) = [Square.rankDigit rank] := by
    decide
  apply quote_of_plain
  simp [Square.chars, hfile, hrank]

theorem quote_letter (p : Promotion) :
    Json.quote (String.singleton p.letter) = "\"" ++ String.singleton p.letter ++ "\"" := by
  cases p <;> decide +kernel

theorem render_response (m : Move) : m.response.render.toList =
    answerText m.source.chars m.target.chars (m.promotion.map Promotion.letter).toList := by
  have hresult : Json.quote "result" = "\"result\"" := by decide +kernel
  have hfrom : Json.quote "from" = "\"from\"" := by decide +kernel
  have hto : Json.quote "to" = "\"to\"" := by decide +kernel
  have hpromotion : Json.quote "promotion" = "\"promotion\"" := by decide +kernel
  rw [response, Json.render, Json.renderMembers, Json.renderMembers, toJson, Json.render,
    String.intercalate_singleton, hresult]
  cases m.promotion with
  | none =>
    rw [Option.map_none, Option.toList_none, List.append_nil, Json.renderMembers,
      Json.renderMembers, Json.renderMembers, Square.toJson, Square.toJson, Json.render,
      Json.render, hfrom, hto, quote_square, quote_square, String.intercalate_cons_cons,
      String.intercalate_singleton]
    unfold answerText
    simp only [String.toList_append, Square.text, String.toList_ofList, List.append_assoc]
    rfl
  | some p =>
    rw [Option.map_some, Option.toList_some, List.cons_append, List.cons_append, List.nil_append,
      Json.renderMembers, Json.renderMembers, Json.renderMembers, Json.renderMembers,
      Square.toJson, Square.toJson, Promotion.toJson, Json.render, Json.render, Json.render, hfrom,
      hto, hpromotion, quote_square, quote_square, quote_letter, String.intercalate_cons_cons,
      String.intercalate_cons_cons, String.intercalate_singleton]
    unfold answerText
    simp only [String.toList_append, Square.text, String.toList_ofList, List.append_assoc,
      String.toList_singleton]
    rfl

/-! ## The account -/

/-- How a text is read as a move, and spelled again. -/
structure ReadAccount (s : String) : Prop where
  /-- No text breaks the reading of its bytes down. -/
  unbroken : (readBytes s).run = some (read s)
  accepted : (∃ m, read s = .ok m) ↔ IsMoveText s.toList
  /-- The text of the move is the text that was read, with the letter in lower case, -/
  text : ∀ m, read s = .ok m →
    m.text.toList = s.toList.take 4 ++ (s.toList.drop 4).map Char.toLower
  /-- and the same move is read from it. -/
  reread : ∀ m, read s = .ok m → read m.text = .ok m
  /-- An answer has the two squares, and a piece if there is a fifth character. -/
  response : ∀ m, read s = .ok m → m.response =
    .obj [("result", .obj ([("from", .str (String.ofList (s.toList.take 2))),
      ("to", .str (String.ofList ((s.toList.drop 2).take 2)))] ++
        (s.toList.drop 4).map fun c => ("promotion", .str (String.singleton c.toLower))))]
  /-- The text as a whole is reported if it is not ASCII or has the wrong length, -/
  wrongShape : ∀ t, read s = .error (.move t) ↔ ¬HasShape s ∧ t = s
  /-- otherwise the first two characters that are no square, -/
  wrongSquare : ∀ t, read s = .error (.square t) ↔ HasShape s ∧
    [s.toList.take 2, (s.toList.drop 2).take 2].find? (¬IsSquareText ·) = some t.toList
  /-- otherwise the fifth character. -/
  wrongPiece : ∀ c, read s = .error (.promotion c) ↔ HasShape s ∧
    IsSquareText (s.toList.take 2) ∧ IsSquareText ((s.toList.drop 2).take 2) ∧
      s.toList.drop 4 = [c] ∧ ¬IsPieceLetter c

theorem read_account (s : String) : ReadAccount s := by
  refine
    { unbroken := run_readBytes s
      accepted := exists_read_iff
      text := fun m h => ?_
      reread := fun m _ => read_text m
      response := fun m h => ?_
      wrongShape := fun t => ?_
      wrongSquare := fun t => ?_
      wrongPiece := fun c => ?_ }
  · obtain ⟨letter, hsplit, hletter⟩ := read_eq_ok.1 h
    rw [hsplit, Move.text, String.toList_ofList, chars, ← hletter]
    rfl
  · obtain ⟨hsource, htarget, hletter⟩ := parts_of_read h
    let member (c : Char) : String × Json := ("promotion", .str (String.singleton c))
    have hpiece : (s.toList.drop 4).map (fun c => member c.toLower) =
        (m.promotion.map fun p => ("promotion", p.toJson)).toList := by
      have hmap : (s.toList.drop 4).map (fun c => member c.toLower) =
          ((s.toList.drop 4).map Char.toLower).map member := by
        rw [List.map_map]
        rfl
      rw [hmap, hletter]
      cases m.promotion <;> rfl
    rw [hsource, htarget, hpiece]
    rfl
  · rw [read_eq_error]
    simp only [MoveError.move.injEq, reduceCtorEq, and_false, exists_false, or_false, eq_comm]
  · have hlist : ∀ cs, t = String.ofList cs ↔ cs = t.toList := by
      intro cs
      constructor
      · rintro rfl
        exact String.toList_ofList.symm
      · rintro rfl
        exact String.ofList_toList.symm
    rw [read_eq_error]
    by_cases hsource : IsSquareText (s.toList.take 2)
    · by_cases htarget : IsSquareText ((s.toList.drop 2).take 2) <;> simp [hsource, htarget, hlist]
    · simp [hsource, hlist]
  · rw [read_eq_error]
    simp [eq_comm]

/-- How moves are spelled: texts are read as moves, and what an engine's line says is answered with
the same text again. -/
structure SpellingAccount : Prop where
  read : ∀ s, ReadAccount s
  /-- If a line of an engine is read as a move, it says so with its second word, and the answer has
  the parts of this word, with the letter in lower case. -/
  answered : ∀ line m, Uci.Reply.read line = .bestMove (.move m) →
    ∃ word rest, words line = "bestmove".toList :: word :: rest ∧ readChars word = .ok m ∧
      ∀ model, (Http.respond ((Outcome.move m).result model)).status = 200 ∧
        (Http.respond ((Outcome.move m).result model)).body.render.toList =
          answerText (word.take 2) ((word.drop 2).take 2) ((word.drop 4).map Char.toLower)

theorem spelling_account : SpellingAccount := by
  refine ⟨read_account, fun line m h => ?_⟩
  obtain ⟨rest, hwords, hmove⟩ := Uci.read_eq_bestMove.1 h
  obtain ⟨letter, hword, hletter⟩ := Uci.outcomeOf_eq_move.1 hmove.symm
  obtain ⟨word, rest', rfl⟩ : ∃ word rest', rest = word :: rest' := by
    cases rest with
    | nil => cases hword
    | cons word rest' => exact ⟨word, rest', rfl⟩
  have hread : readChars word = .ok m := by
    rw [Option.some.inj hword]
    exact readChars_eq_ok.2 ⟨letter, rfl, hletter⟩
  obtain ⟨hsource, htarget, hpiece⟩ := parts_of_read hread
  refine ⟨word, rest', hwords, hread, fun model => ⟨rfl, ?_⟩⟩
  rw [hsource, htarget, hpiece, ← render_response]
  rfl

/-- A letter in upper case is answered in lower case. -/
example : (read "a7b8N").toOption.map (fun m => m.response.render) =
    some "\x7b\"result\":\x7b\"from\":\"a7\",\"to\":\"b8\",\"promotion\":\"n\"\x7d\x7d" := by
  decide +kernel

end Move

end Sparring
