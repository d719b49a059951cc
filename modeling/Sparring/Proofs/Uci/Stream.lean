import Mathlib.Data.List.TakeWhile
import Sparring.Uci.Instance

/-!
# The lines of a stream

What an engine has printed so far, cut into lines. `cut` cuts at the line feeds and keeps the
line that has been begun; `lines` are the lines a reader can take, where the line begun counts
once the output is closed; `replies` is what they say, up to the first that is not UTF-8.

Printing adds lines and takes none away (`lines_print`, `lines_close`), and what a reader finds
is the first of them (`lines_of_line`).
-/

namespace Sparring.Uci

/-! ## Lines -/

/-- The lines that are complete, and the line that has been begun. -/
def cut : List UInt8 → List (List UInt8) × List UInt8
  | [] => ([], [])
  | b :: bytes =>
    if b = 10 then ([] :: (cut bytes).1, (cut bytes).2)
    else
      match (cut bytes).1 with
      | [] => ([], b :: (cut bytes).2)
      | line :: rest => ((b :: line) :: rest, (cut bytes).2)

theorem cut_feed (bytes : List UInt8) : cut (10 :: bytes) = ([] :: (cut bytes).1, (cut bytes).2) :=
  rfl

/-- A byte that is no line feed goes to the front of the first line. -/
theorem cut_cons {b : UInt8} (hb : b ≠ 10) {xs ys : List UInt8} (h : cut xs = cut ys) :
    cut (b :: xs) = cut (b :: ys) := by
  simp only [cut, if_neg hb, h]

/-- Up to the first line feed stands the first line. -/
theorem cut_line {line : List UInt8} (h : 10 ∉ line) (rest : List UInt8) :
    cut (line ++ 10 :: rest) = (line :: (cut rest).1, (cut rest).2) := by
  induction line with
  | nil => rfl
  | cons b line ih =>
    rw [List.mem_cons, not_or] at h
    obtain ⟨hb, hline⟩ := h
    rw [List.cons_append, cut, if_neg (Ne.symm hb), ih hline]

theorem cut_begun {line : List UInt8} (h : 10 ∉ line) : cut line = ([], line) := by
  induction line with
  | nil => rfl
  | cons b line ih =>
    rw [List.mem_cons, not_or] at h
    obtain ⟨hb, hline⟩ := h
    rw [cut, if_neg (Ne.symm hb), ih hline]

/-- More bytes go to the end of the line begun. -/
theorem cut_append (xs ys : List UInt8) :
    cut (xs ++ ys) = ((cut xs).1 ++ (cut ((cut xs).2 ++ ys)).1, (cut ((cut xs).2 ++ ys)).2) := by
  induction xs with
  | nil => rfl
  | cons b xs ih =>
    by_cases hb : b = 10
    · subst hb
      rw [List.cons_append, cut_feed, cut_feed, ih]
      rfl
    · rcases hcut : cut xs with ⟨_ | ⟨line, rest⟩, begun⟩
      · have hbegun : cut (b :: xs) = ([], b :: begun) := by rw [cut, if_neg hb, hcut]
        rw [hcut] at ih
        rw [hbegun]
        exact cut_cons hb ih
      · have hline : cut (b :: xs) = ((b :: line) :: rest, begun) := by rw [cut, if_neg hb, hcut]
        rw [hline, List.cons_append, cut, if_neg hb, ih, hcut]
        rfl

/-- The lines a reader can take, when the output is open or not. -/
def lines (bytes : List UInt8) (isOpen : Bool) : List (List UInt8) :=
  (cut bytes).1.map Instance.stripReturn ++
    if isOpen || (cut bytes).2.isEmpty then [] else [(cut bytes).2]

@[simp] theorem lines_nil (isOpen : Bool) : lines [] isOpen = [] := by
  simp [lines, cut]

theorem lines_print (xs ys : List UInt8) :
    lines (xs ++ ys) true = lines xs true ++ lines ((cut xs).2 ++ ys) true := by
  simp [lines, cut_append xs ys]

theorem lines_close (bytes : List UInt8) :
    lines bytes false =
      lines bytes true ++ if (cut bytes).2.isEmpty then [] else [(cut bytes).2] := by
  simp [lines]

/-! ## What is found -/

theorem not_mem_takeWhile (bytes : List UInt8) : 10 ∉ bytes.takeWhile (· ≠ 10) := fun h => by
  simpa using List.mem_takeWhile_imp h

/-- The output at a line feed. -/
theorem eq_of_dropWhile {bytes rest : List UInt8} {b : UInt8}
    (h : bytes.dropWhile (· ≠ 10) = b :: rest) :
    bytes = bytes.takeWhile (· ≠ 10) ++ 10 :: rest := by
  have hne : bytes.dropWhile (· ≠ 10) ≠ [] := by
    rw [h]
    exact List.cons_ne_nil b rest
  have hb : b = 10 := by
    have hhead : (bytes.dropWhile (· ≠ 10)).head hne = b := by simp only [h, List.head_cons]
    have hnot := List.head_dropWhile_not _ hne
    rw [hhead] at hnot
    simpa using hnot
  rw [hb] at h
  rw [← h, List.takeWhile_append_dropWhile]

/-- Without a line feed all bytes belong to the line begun. -/
theorem cut_of_dropWhile {bytes : List UInt8} (h : bytes.dropWhile (· ≠ 10) = []) :
    bytes.takeWhile (· ≠ 10) = bytes ∧ cut bytes = ([], bytes) := by
  have htake : bytes.takeWhile (· ≠ 10) = bytes :=
    List.takeWhile_eq_self_iff.2 (List.dropWhile_eq_nil_iff.1 h)
  exact ⟨htake, cut_begun (htake ▸ not_mem_takeWhile bytes)⟩

namespace Instance

variable {i : Instance}

theorem lines_of_line {bytes rest : List UInt8} (h : i.find = .line bytes rest) :
    lines i.output i.outputOpen = bytes :: lines rest i.outputOpen ∧
      (i.outputOpen = true → (cut i.output).2 = (cut rest).2) := by
  unfold find at h
  simp only at h
  split at h
  next b rest' hd =>
    cases h
    rw [eq_of_dropWhile hd]
    have hcut := cut_line (not_mem_takeWhile i.output) rest
    refine ⟨?_, fun _ => by rw [hcut]⟩
    simp only [lines, hcut, List.map_cons, List.cons_append]
    rw [← eq_of_dropWhile hd]
  next hd =>
    obtain ⟨htake, hcut⟩ := cut_of_dropWhile hd
    split at h
    · cases h
    next hopen =>
      split at h
      · cases h
      next hne =>
        cases h
        rw [htake] at hne
        refine ⟨?_, fun ho => absurd ho hopen⟩
        rw [htake, lines_nil]
        simp [lines, hcut, hopen, hne]

theorem lines_of_over (h : i.find = .over) :
    i.outputOpen = false ∧ lines i.output i.outputOpen = [] := by
  unfold find at h
  simp only at h
  split at h
  · cases h
  next hd =>
    obtain ⟨htake, hcut⟩ := cut_of_dropWhile hd
    split at h
    · cases h
    next hopen =>
      split at h
      next hempty =>
        rw [htake, List.isEmpty_iff] at hempty
        exact ⟨by simpa using hopen, by rw [hempty, lines_nil]⟩
      · cases h

theorem lines_of_nothing (h : i.find = .nothing) :
    i.outputOpen = true ∧ lines i.output i.outputOpen = [] := by
  unfold find at h
  simp only at h
  split at h
  · cases h
  next hd =>
    obtain ⟨-, hcut⟩ := cut_of_dropWhile hd
    split at h
    next hopen => exact ⟨hopen, by simp [lines, hcut, hopen]⟩
    · split at h <;> cases h

end Instance

/-! ## Replies -/

/-- What lines say, up to the first that is not UTF-8. -/
def replies : List (List UInt8) → List Reply
  | [] => []
  | bytes :: rest =>
    match decodeUtf8? bytes with
    | some line => Reply.read line :: replies rest
    | none => []

/-- Whether all lines are UTF-8. -/
def Readable (ls : List (List UInt8)) : Prop := ∀ bytes ∈ ls, (decodeUtf8? bytes).isSome

theorem readable_concat {ls : List (List UInt8)} (h : Readable ls) {bytes : List UInt8}
    {line : List Char} (hd : decodeUtf8? bytes = some line) : Readable (ls ++ [bytes]) := by
  intro b hb
  rcases List.mem_append.1 hb with hb | hb
  · exact h b hb
  · rw [List.mem_singleton.1 hb, hd]
    rfl

theorem replies_append {xs : List (List UInt8)} (h : Readable xs) (ys : List (List UInt8)) :
    replies (xs ++ ys) = replies xs ++ replies ys := by
  induction xs with
  | nil => rfl
  | cons bytes xs ih =>
    obtain ⟨line, hline⟩ := Option.isSome_iff_exists.1 (h bytes List.mem_cons_self)
    rw [List.cons_append, replies, replies, hline]
    exact congrArg _ (ih fun b hb => h b (List.mem_cons_of_mem _ hb))

/-- More lines say more. -/
theorem replies_prefix (xs ys : List (List UInt8)) : replies xs <+: replies (xs ++ ys) := by
  induction xs with
  | nil => exact List.nil_prefix
  | cons bytes xs ih =>
    rw [List.cons_append, replies, replies]
    cases decodeUtf8? bytes with
    | none => exact List.nil_prefix
    | some line => exact (List.prefix_cons_inj _).2 ih

end Sparring.Uci
