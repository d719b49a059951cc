import Mathlib.Data.List.Basic
import Sparring.Move

/-!
# Moves read byte by byte

A text of a move may be read off its bytes: it is cut at the second and at the fourth byte, and the
file and the rank of a square are differences of bytes that wrap around. Such a reading could break
down, for a position where a text is cut may lie within a character or behind the end of the text.
`readBytes` has this as an outcome of its own and does not come to it, for it cuts texts only that
are ASCII and long enough. So it reads every text, and reads it as `Move.read` does
(`run_readBytes`).
-/

namespace Sparring

/-! ## Cutting a text -/

/-- The two parts of a text before and after so many bytes, unless these end within a character or
behind the text. -/
def split? : Nat → List Char → Option (List Char × List Char)
  | 0, cs => some ([], cs)
  | _ + 1, [] => none
  | n + 1, c :: cs =>
    if c.utf8Size ≤ n + 1 then
      (split? (n + 1 - c.utf8Size) cs).map fun (front, back) => (c :: front, back)
    else none

/-- The part of a text from one byte on up to another. -/
def slice? (start stop : Nat) (cs : List Char) : Option (List Char) := do
  let (_, back) ← split? start cs
  let (piece, _) ← split? (stop - start) back
  return piece

section Ascii

variable {cs : List Char}

theorem utf8Size_of_ascii {c : Char} (h : c.toNat < 128) : c.utf8Size = 1 := by
  rw [Char.utf8Size_eq_one_iff]
  exact UInt32.le_iff_toNat_le.2 (Nat.le_of_lt_succ h)

/-- The bytes of an ASCII text are its characters. -/
theorem flatMap_utf8_of_ascii (h : ∀ c ∈ cs, c.toNat < 128) :
    cs.flatMap String.utf8EncodeChar = cs.map Char.toUInt8 := by
  induction cs with
  | nil => rfl
  | cons c cs ih =>
    obtain ⟨hc, hcs⟩ := List.forall_mem_cons.1 h
    rw [List.flatMap_cons, String.utf8EncodeChar_eq_singleton (utf8Size_of_ascii hc), ih hcs]
    rfl

theorem utf8ByteSize_of_ascii {s : String} (h : ∀ c ∈ s.toList, c.toNat < 128) :
    s.utf8ByteSize = s.toList.length := by
  have hbytes : s.toByteArray = s.toList.utf8Encode := by
    rw [← String.toByteArray_ofList, String.ofList_toList]
  rw [← String.size_toByteArray, hbytes, List.utf8Encode, List.size_toByteArray,
    flatMap_utf8_of_ascii h, List.length_map]

/-- Every position within an ASCII text lies between two characters. -/
theorem split?_of_ascii (h : ∀ c ∈ cs, c.toNat < 128) {n : Nat} (hle : n ≤ cs.length) :
    split? n cs = some (cs.take n, cs.drop n) := by
  induction cs generalizing n with
  | nil =>
    obtain rfl := Nat.le_zero.1 hle
    rfl
  | cons c cs ih =>
    obtain ⟨hc, hcs⟩ := List.forall_mem_cons.1 h
    cases n with
    | zero => rfl
    | succ n =>
      have hrest := ih hcs (Nat.le_of_succ_le_succ hle)
      simp [split?, utf8Size_of_ascii hc, hrest]

theorem slice?_of_ascii (h : ∀ c ∈ cs, c.toNat < 128) (start stop : Nat) (hle : start ≤ stop)
    (hstop : stop ≤ cs.length) :
    slice? start stop cs = some ((cs.drop start).take (stop - start)) := by
  have hback : ∀ c ∈ cs.drop start, c.toNat < 128 := fun c hc => h c (List.mem_of_mem_drop hc)
  have hrest : stop - start ≤ (cs.drop start).length := by
    rw [List.length_drop]
    omega
  simp [slice?, split?_of_ascii h (Nat.le_trans hle hstop), split?_of_ascii hback hrest]

end Ascii

/-! ## Squares -/

namespace Square

/-- The square of two bytes. A byte below the first file or the first rank wraps around and comes
out above the last one. -/
def ofBytes? : List UInt8 → Option Square
  | [file, rank] => new? (file - 'a'.toUInt8).toNat (rank - '1'.toUInt8).toNat
  | _ => none

/-- Reads a square off the bytes of a text. -/
def readBytes (cs : List Char) : Except MoveError Square :=
  match ofBytes? (cs.flatMap String.utf8EncodeChar) with
  | some s => .ok s
  | none => .error (.square (String.ofList cs))

/-- The difference of two bytes wraps around exactly if there is no difference. -/
theorem toNat_sub_of_ascii (c base : Char) (hc : c.toNat < 128) (hbase : base.toNat < 128) :
    (c.toUInt8 - base.toUInt8).toNat =
      if base ≤ c then c.toNat - base.toNat else 256 + c.toNat - base.toNat := by
  have hle : base ≤ c ↔ base.toNat ≤ c.toNat := Iff.rfl
  have hbyte : ∀ d : Char, d.toNat < 128 → d.toUInt8.toNat = d.toNat := by
    intro d hd
    show d.toNat % 256 = d.toNat
    omega
  rw [UInt8.toNat_sub, hbyte c hc, hbyte base hbase]
  by_cases h : base ≤ c
  · rw [if_pos h]
    have := hle.1 h
    omega
  · rw [if_neg h]
    have := mt hle.2 h
    omega

theorem ofBytes?_of_ascii {cs : List Char} (h : ∀ c ∈ cs, c.toNat < 128) :
    ofBytes? (cs.flatMap String.utf8EncodeChar) = ofChars? cs := by
  rw [flatMap_utf8_of_ascii h]
  match cs, h with
  | [], _ => rfl
  | [_], _ => rfl
  | _ :: _ :: _ :: _, _ => rfl
  | [file, rank], h =>
    have hfile := toNat_sub_of_ascii file 'a' (h file (by simp)) (by decide)
    have hrank := toNat_sub_of_ascii rank '1' (h rank (by simp)) (by decide)
    simp only [List.map_cons, List.map_nil, ofBytes?, ofChars?, hfile, hrank]
    by_cases hin : 'a' ≤ file ∧ '1' ≤ rank
    · rw [if_pos hin, if_pos hin.1, if_pos hin.2]
    · rw [if_neg hin, new?, dif_neg]
      -- One of the two coordinates has wrapped around.
      rintro ⟨hboardFile, hboardRank⟩
      apply hin
      simp only [Char.reduceToNat] at hboardFile hboardRank
      constructor
      · by_contra hbelow
        rw [if_neg hbelow] at hboardFile
        omega
      · by_contra hbelow
        rw [if_neg hbelow] at hboardRank
        omega

theorem readBytes_of_ascii {cs : List Char} (h : ∀ c ∈ cs, c.toNat < 128) :
    readBytes cs = read cs := by
  unfold readBytes
  rw [ofBytes?_of_ascii h]
  rfl

end Square

/-! ## Moves -/

namespace Move

/-- Whether a text is ASCII and has as many bytes as a move. -/
def HasShape (s : String) : Prop :=
  (∀ c ∈ s.toList, c.toNat < 128) ∧ 4 ≤ s.utf8ByteSize ∧ s.utf8ByteSize ≤ 5

instance : DecidablePred HasShape := fun s =>
  inferInstanceAs (Decidable ((∀ c ∈ s.toList, c.toNat < 128) ∧ _))

/-- Reads a move off the bytes of a text. There is no outcome if the text is cut where it cannot
be. -/
def readBytes (s : String) : ExceptT MoveError Option Move := do
  if HasShape s then
    let source ← Square.readBytes (← slice? 0 2 s.toList)
    let target ← Square.readBytes (← slice? 2 4 s.toList)
    let promotion ← readPromotion (← slice? 4 s.utf8ByteSize s.toList)
    return ⟨source, target, promotion⟩
  else throw (.move s)

theorem hasShape_iff {s : String} : HasShape s ↔
    s.toList.all (·.toNat < 128) = true ∧ (s.toList.length = 4 ∨ s.toList.length = 5) := by
  have hall : s.toList.all (·.toNat < 128) = true ↔ ∀ c ∈ s.toList, c.toNat < 128 := by simp
  rw [HasShape, hall]
  constructor
  · rintro ⟨hascii, hlow, hhigh⟩
    rw [utf8ByteSize_of_ascii hascii] at hlow hhigh
    exact ⟨hascii, by omega⟩
  · rintro ⟨hascii, hlength⟩
    rw [utf8ByteSize_of_ascii hascii]
    exact ⟨hascii, by omega⟩

theorem bind_some {α β : Type} (a : α) (f : α → ExceptT MoveError Option β) :
    ((liftM (some a) : ExceptT MoveError Option α) >>= f) = f a := rfl

/-- No text breaks the reading of its bytes down, and every text is read as it is by its
characters. -/
theorem run_readBytes (s : String) : (readBytes s).run = some (read s) := by
  unfold readBytes read readChars
  by_cases hshape : HasShape s
  · obtain ⟨hascii, hlow, hhigh⟩ := hshape
    have hsize := utf8ByteSize_of_ascii hascii
    have hsource := slice?_of_ascii hascii 0 2 (by omega) (by omega)
    have htarget := slice?_of_ascii hascii 2 4 (by omega) (by omega)
    have hletter := slice?_of_ascii hascii 4 s.utf8ByteSize (by omega) (by omega)
    have hrest : (s.toList.drop 4).take (s.utf8ByteSize - 4) = s.toList.drop 4 := by
      apply List.take_of_length_le
      rw [List.length_drop]
      omega
    have hread : ∀ piece ⊆ s.toList, Square.readBytes piece = Square.read piece :=
      fun piece hpiece => Square.readBytes_of_ascii fun c hc => hascii c (hpiece hc)
    have hsourceRead := hread _ (List.take_subset 2 s.toList)
    have htargetRead := hread _ (List.Subset.trans (List.take_subset 2 (s.toList.drop 2))
      (List.drop_subset 2 s.toList))
    rw [if_pos (hasShape_iff.1 ⟨hascii, hlow, hhigh⟩), if_pos ⟨hascii, hlow, hhigh⟩, hsource,
      htarget, hletter, hrest]
    simp only [bind_some, hsourceRead, htargetRead, List.drop_zero, Nat.sub_zero, Nat.reduceSub]
    cases Square.read (s.toList.take 2) with
    | error e => rfl
    | ok source =>
      cases Square.read ((s.toList.drop 2).take 2) with
      | error e => rfl
      | ok target => cases readPromotion (s.toList.drop 4) <;> rfl
  · rw [if_neg (mt hasShape_iff.2 hshape), if_neg hshape, String.ofList_toList]
    rfl

end Move

end Sparring
