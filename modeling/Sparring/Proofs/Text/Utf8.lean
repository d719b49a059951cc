import Mathlib.Tactic.Common
import Sparring.Text.Utf8

/-!
# What has been written in UTF-8 is read back

The bytes of a character are read as one piece, which is that character (`read_utf8EncodeChar`). So
the bytes of a text are pieced together to this text, whichever way broken pieces are treated.
-/

namespace Sparring

namespace Utf8

/-- Takes a row of bytes. -/
def Reader.read (r : Reader) (bytes : List UInt8) : Reader :=
  bytes.foldl (fun (r : Reader) byte => r.take byte.toNat) r

theorem Reader.read_append (r : Reader) (xs ys : List UInt8) :
    r.read (xs ++ ys) = (r.read xs).read ys := List.foldl_append

section Bytes

variable {pieces : List (Option Char)} {b : Begun} {byte : Nat}

/-- A byte that goes on with a character takes its range and its place. -/
theorem take_next (hb : b.missing ≠ 1) (hlow : b.low ≤ byte) (hhigh : byte ≤ b.high) :
    Reader.take ⟨pieces, some b⟩ byte =
      ⟨pieces, some ⟨b.missing - 1, 0x80, 0xBF, b.bits * 64 + byte % 64⟩⟩ := by
  simp [Reader.take, hb, hlow, hhigh]

/-- The last byte of a character makes it whole. -/
theorem take_last (hb : b.missing = 1) (hlow : b.low ≤ byte) (hhigh : byte ≤ b.high) :
    Reader.take ⟨pieces, some b⟩ byte =
      ⟨some (Char.ofNat (b.bits * 64 + byte % 64)) :: pieces, none⟩ := by
  simp [Reader.take, hb, hlow, hhigh]

theorem take_whole (h : byte < 0x80) :
    Reader.take ⟨pieces, none⟩ byte = ⟨some (Char.ofNat byte) :: pieces, none⟩ := by
  simp [Reader.take, Reader.first, lead, h]

theorem take_two (hlow : 0xC2 ≤ byte) (hhigh : byte < 0xE0) :
    Reader.take ⟨pieces, none⟩ byte = ⟨pieces, some ⟨1, 0x80, 0xBF, byte - 0xC0⟩⟩ := by
  have hlead : lead byte = .starts ⟨1, 0x80, 0xBF, byte - 0xC0⟩ := by
    unfold lead
    rw [if_neg (by omega), if_neg (by omega), if_pos hhigh]
  simp [Reader.take, Reader.first, hlead]

theorem take_three (hlow : 0xE0 ≤ byte) (hhigh : byte < 0xF0) :
    Reader.take ⟨pieces, none⟩ byte =
      ⟨pieces, some ⟨2, if byte = 0xE0 then 0xA0 else 0x80, if byte = 0xED then 0x9F else 0xBF,
        byte - 0xE0⟩⟩ := by
  have hlead : lead byte = .starts ⟨2, if byte = 0xE0 then 0xA0 else 0x80,
      if byte = 0xED then 0x9F else 0xBF, byte - 0xE0⟩ := by
    unfold lead
    rw [if_neg (by omega), if_neg (by omega), if_neg (by omega), if_pos hhigh]
  simp [Reader.take, Reader.first, hlead]

theorem take_four (hlow : 0xF0 ≤ byte) (hhigh : byte < 0xF5) :
    Reader.take ⟨pieces, none⟩ byte =
      ⟨pieces, some ⟨3, if byte = 0xF0 then 0x90 else 0x80, if byte = 0xF4 then 0x8F else 0xBF,
        byte - 0xF0⟩⟩ := by
  have hlead : lead byte = .starts ⟨3, if byte = 0xF0 then 0x90 else 0x80,
      if byte = 0xF4 then 0x8F else 0xBF, byte - 0xF0⟩ := by
    unfold lead
    rw [if_neg (by omega), if_neg (by omega), if_neg (by omega), if_neg (by omega), if_pos hhigh]
  simp [Reader.take, Reader.first, hlead]

end Bytes

/-- No character is a surrogate or lies above the last code point. -/
theorem toNat_lt_or (c : Char) :
    c.toNat < 0xD800 ∨ 0xDFFF < c.toNat ∧ c.toNat < 0x110000 := c.valid

theorem toNat_ofNat_of_lt {n : Nat} (h : n < 256) : (UInt8.ofNat n).toNat = n :=
  UInt8.toNat_ofNat_of_lt h

/-- The bytes of a character are read as that character. -/
theorem read_utf8EncodeChar (pieces : List (Option Char)) (c : Char) :
    Reader.read ⟨pieces, none⟩ (String.utf8EncodeChar c) = ⟨some c :: pieces, none⟩ := by
  have hvalid := toNat_lt_or c
  have hchar : ∀ n, n = c.toNat → Char.ofNat n = c := by
    rintro _ rfl
    exact Char.ofNat_toNat c
  have hval : c.val.toNat = c.toNat := rfl
  generalize hv : c.toNat = v at *
  -- One case for each number of bytes, as the encoding has them.
  unfold String.utf8EncodeChar
  simp only [hval]
  split
  · simp only [Reader.read, List.foldl_cons, List.foldl_nil]
    rw [toNat_ofNat_of_lt (by omega), take_whole (by omega), hchar v rfl]
  · split
    · simp only [Reader.read, List.foldl_cons, List.foldl_nil]
      rw [toNat_ofNat_of_lt (by omega), toNat_ofNat_of_lt (by omega),
        take_two (by omega) (by omega), take_last rfl (by simp) (by simp; omega)]
      rw [hchar _ (by simp; omega)]
    · split
      · simp only [Reader.read, List.foldl_cons, List.foldl_nil]
        rw [toNat_ofNat_of_lt (by omega), toNat_ofNat_of_lt (by omega),
          toNat_ofNat_of_lt (by omega), take_three (by omega) (by omega)]
        rw [take_next (by simp) (by simp; split <;> omega) (by simp; split <;> omega)]
        rw [take_last rfl (by simp) (by simp; omega), hchar _ (by simp; omega)]
      · simp only [Reader.read, List.foldl_cons, List.foldl_nil]
        rw [toNat_ofNat_of_lt (by omega), toNat_ofNat_of_lt (by omega),
          toNat_ofNat_of_lt (by omega), toNat_ofNat_of_lt (by omega),
          take_four (by omega) (by omega)]
        rw [take_next (by simp) (by simp; split <;> omega) (by simp; split <;> omega)]
        rw [take_next (by simp) (by simp) (by simp; omega)]
        rw [take_last rfl (by simp) (by simp; omega), hchar _ (by simp; omega)]

theorem read_flatMap (pieces : List (Option Char)) (cs : List Char) :
    Reader.read ⟨pieces, none⟩ (cs.flatMap String.utf8EncodeChar) =
      ⟨(cs.map some).reverse ++ pieces, none⟩ := by
  induction cs generalizing pieces with
  | nil => rfl
  | cons c cs ih =>
    rw [List.flatMap_cons, Reader.read_append, read_utf8EncodeChar, ih]
    simp

/-- The pieces of the bytes of a row of characters are these characters. -/
theorem pieces_flatMap (cs : List Char) :
    pieces (cs.flatMap String.utf8EncodeChar) = cs.map some := by
  have hread := read_flatMap [] cs
  unfold Reader.read at hread
  simp [pieces, hread]

end Utf8

theorem toList_loop (bytes : ByteArray) (i : Nat) (before : List UInt8) :
    ByteArray.toList.loop bytes i before = before.reverse ++ bytes.data.toList.drop i := by
  fun_induction ByteArray.toList.loop bytes i before with
  | case1 i before h ih =>
    have hi : i < bytes.data.toList.length := by simpa using h
    rw [ih, List.drop_eq_getElem_cons hi]
    simp [ByteArray.get!, h]
  | case2 i before h =>
    rw [List.drop_eq_nil_of_le (by simpa using h), List.append_nil]

theorem encodeUtf8_ofList (cs : List Char) :
    encodeUtf8 (String.ofList cs) = cs.flatMap String.utf8EncodeChar := by
  have hdata : (cs.flatMap String.utf8EncodeChar).toByteArray.data.toList =
      cs.flatMap String.utf8EncodeChar := List.toList_data_toByteArray
  rw [encodeUtf8, String.toUTF8_eq_toByteArray, ByteArray.toList, toList_loop]
  exact hdata

/-- What has been written in UTF-8 is read back. -/
theorem decodeUtf8?_flatMap (cs : List Char) :
    decodeUtf8? (cs.flatMap String.utf8EncodeChar) = some cs := by
  simp [decodeUtf8?, Utf8.pieces_flatMap]

theorem decodeUtf8Lossy_flatMap (cs : List Char) :
    decodeUtf8Lossy (cs.flatMap String.utf8EncodeChar) = cs := by
  simp [decodeUtf8Lossy, Utf8.pieces_flatMap, Function.comp_def]

end Sparring
