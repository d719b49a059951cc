/-!
# Reading UTF-8

A byte string is cut into pieces: each piece is one character or a maximal run of bytes that
starts no character, or breaks one off. `decodeUtf8?` refuses byte strings with a broken piece
and `decodeUtf8Lossy` puts the replacement character in the place of each.
-/

namespace Sparring

namespace Utf8

/-- A character begun: how many bytes are missing, the range of the next one, and the bits read
so far. -/
structure Begun where
  missing : Nat
  low : Nat
  high : Nat
  bits : Nat

/-- What a byte that stands first says. -/
inductive Lead where
  | whole (c : Char)
  | starts (b : Begun)
  | broken

/-- Reads a byte that stands first. The ranges of the second byte leave out overlong forms,
surrogates and numbers above the last code point. -/
def lead (byte : Nat) : Lead :=
  if byte < 0x80 then .whole (Char.ofNat byte)
  else if byte < 0xC2 then .broken
  else if byte < 0xE0 then .starts ⟨1, 0x80, 0xBF, byte - 0xC0⟩
  else if byte < 0xF0 then
    .starts ⟨2, if byte = 0xE0 then 0xA0 else 0x80, if byte = 0xED then 0x9F else 0xBF,
      byte - 0xE0⟩
  else if byte < 0xF5 then
    .starts ⟨3, if byte = 0xF0 then 0x90 else 0x80, if byte = 0xF4 then 0x8F else 0xBF,
      byte - 0xF0⟩
  else .broken

/-- The pieces read so far, last one first, and the character that is begun. -/
structure Reader where
  pieces : List (Option Char)
  begun : Option Begun

/-- Takes a byte that stands first. -/
def Reader.first (pieces : List (Option Char)) (byte : Nat) : Reader :=
  match lead byte with
  | .whole c => ⟨some c :: pieces, none⟩
  | .starts b => ⟨pieces, some b⟩
  | .broken => ⟨none :: pieces, none⟩

/-- Takes the next byte. A byte that cannot go on with the character begun breaks it off and
stands first itself. -/
def Reader.take (r : Reader) (byte : Nat) : Reader :=
  match r.begun with
  | none => first r.pieces byte
  | some b =>
    if b.low ≤ byte ∧ byte ≤ b.high then
      let bits := b.bits * 64 + byte % 64
      if b.missing = 1 then ⟨some (Char.ofNat bits) :: r.pieces, none⟩
      else ⟨r.pieces, some ⟨b.missing - 1, 0x80, 0xBF, bits⟩⟩
    else first (none :: r.pieces) byte

/-- The pieces of a byte string, `none` for a broken one. -/
def pieces (bytes : List UInt8) : List (Option Char) :=
  let r : Reader := bytes.foldl (fun (r : Reader) byte => r.take byte.toNat) ⟨[], none⟩
  (if r.begun.isSome then none :: r.pieces else r.pieces).reverse

end Utf8

/-- The text of a byte string, or nothing if it is not UTF-8. -/
def decodeUtf8? (bytes : List UInt8) : Option (List Char) :=
  let pieces := Utf8.pieces bytes
  if pieces.all Option.isSome then some (pieces.filterMap id) else none

/-- The text of a byte string with U+FFFD for every broken piece. -/
def decodeUtf8Lossy (bytes : List UInt8) : List Char :=
  (Utf8.pieces bytes).map (·.getD '\ufffd')

/-- The bytes of a text. -/
def encodeUtf8 (s : String) : List UInt8 := s.toUTF8.toList

end Sparring
