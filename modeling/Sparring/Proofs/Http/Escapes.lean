import Mathlib.Data.List.Forall2
import Sparring.Http.Query
import Sparring.Proofs.Text.Utf8

/-!
# What is written into a query string is read back

A character can be written into a part of a query string as itself, unless it is a plus or a percent
sign; a space can be written as a plus; and any character can be written byte by byte, with a percent
sign and two hexadecimal digits for each (`Writes`). Whichever way each of its characters is
written, the text is what the part stands for (`decode_flatten`).
-/

namespace Sparring.Query

/-- The bytes of a character, each by a percent sign and two digits. -/
def escapes (digits : List (Char × Char)) : List Char := digits.flatMap fun (a, b) => ['%', a, b]

/-- The ways to write a character. -/
inductive Writes : Char → List Char → Prop
  | plain {c : Char} : c ≠ '+' → c ≠ '%' → Writes c [c]
  | space : Writes ' ' ['+']
  | escaped {c : Char} {digits : List (Char × Char)} :
    digits.map (fun (a, b) => escapedByte? a b) = (String.utf8EncodeChar c).map some →
    Writes c (escapes digits)

theorem charBytes_eq (c : Char) : charBytes c = String.utf8EncodeChar c := by
  have hone : String.singleton c = String.ofList [c] := rfl
  rw [charBytes, hone, encodeUtf8_ofList, List.flatMap_singleton]

theorem bytes_escapes {digits : List (Char × Char)} {bs : List UInt8}
    (h : digits.map (fun (a, b) => escapedByte? a b) = bs.map some) (rest : List Char) :
    bytes (escapes digits ++ rest) = bs ++ bytes rest := by
  induction digits generalizing bs with
  | nil =>
    cases bs with
    | nil => rfl
    | cons => cases h
  | cons d digits ih =>
    cases bs with
    | nil => cases h
    | cons byte bs =>
      obtain ⟨a, b⟩ := d
      obtain ⟨hbyte, hrest⟩ := List.cons.inj h
      have hbytes : bytes ('%' :: a :: b :: (escapes digits ++ rest)) =
          byte :: bytes (escapes digits ++ rest) := by
        simp only at hbyte
        simp [bytes, hbyte]
      exact hbytes.trans (congrArg (byte :: ·) (ih hrest))

/-- A character that is written stands for its bytes. -/
theorem Writes.bytes_append {c : Char} {part : List Char} (h : Writes c part) (rest : List Char) :
    bytes (part ++ rest) = String.utf8EncodeChar c ++ bytes rest := by
  cases h with
  | plain hplus hpercent =>
    rw [← charBytes_eq]
    simp [bytes, hpercent]
  | space => rfl
  | escaped h => exact bytes_escapes h rest

/-- A text that is written is read back. -/
theorem decode_flatten {text : List Char} {parts : List (List Char)}
    (h : List.Forall₂ Writes text parts) : decode parts.flatten = String.ofList text := by
  have hbytes : bytes parts.flatten = text.flatMap String.utf8EncodeChar := by
    induction h with
    | nil => rfl
    | cons hc _ ih => rw [List.flatten_cons, hc.bytes_append, ih, List.flatMap_cons]
  rw [decode, hbytes, decodeUtf8Lossy_flatMap]

end Sparring.Query
