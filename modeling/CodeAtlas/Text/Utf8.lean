import CodeAtlas.Text.Basic

/-!
# Text as bytes

Text is stored as UTF-8. Reading is either strict, or replaces every maximal malformed piece by one replacement character.
-/

namespace CodeAtlas.Utf8

/-- The bytes of a text. -/
def encode (t : Text) : List UInt8 := t.flatMap String.utf8EncodeChar

/-- A character of which some bytes are still to come: the bits so far, how many bytes are missing, and the range in which the next
one has to lie. -/
structure Pending where
  bits : Nat
  missing : Nat
  low : Nat := 0x80
  high : Nat := 0xBF

/-- What a byte at the start of a character means. -/
inductive Lead where
  | whole (c : Char)
  | first (p : Pending)
  | malformed

/-- Reads the first byte of a character. The ranges of the second byte leave out overlong forms, surrogates and values that are no
code point. -/
def lead (b : UInt8) : Lead :=
  let n := b.toNat
  if n < 0x80 then .whole (Char.ofNat n)
  else if n < 0xC2 then .malformed
  else if n < 0xE0 then .first { bits := n % 32, missing := 1 }
  else if n = 0xE0 then .first { bits := 0, missing := 2, low := 0xA0 }
  else if n = 0xED then .first { bits := 13, missing := 2, high := 0x9F }
  else if n < 0xF0 then .first { bits := n % 16, missing := 2 }
  else if n = 0xF0 then .first { bits := 0, missing := 3, low := 0x90 }
  else if n < 0xF4 then .first { bits := n % 8, missing := 3 }
  else if n = 0xF4 then .first { bits := 4, missing := 3, high := 0x8F }
  else .malformed

/-- One piece of a decoded byte sequence: a character, or nothing where it is malformed. -/
abbrev Piece := Option Char

/-- Decodes from left to right; `none` stands for each maximal malformed piece. -/
def pieces : Option Pending → List UInt8 → List Piece
  | none, [] => []
  | some _, [] => [none]
  | none, b :: r =>
    match lead b with
    | .whole c => some c :: pieces none r
    | .first p => pieces (some p) r
    | .malformed => none :: pieces none r
  | some p, b :: r =>
    if p.low ≤ b.toNat ∧ b.toNat ≤ p.high then
      let bits := p.bits * 64 + b.toNat % 64
      if p.missing ≤ 1 then some (Char.ofNat bits) :: pieces none r
      else pieces (some { bits, missing := p.missing - 1 }) r
    else
      match lead b with
      | .whole c => none :: some c :: pieces none r
      | .first q => none :: pieces (some q) r
      | .malformed => none :: none :: pieces none r

/-- The text of the bytes, with U+FFFD for every malformed piece. -/
def decodeLossy (bs : List UInt8) : Text := (pieces none bs).map (·.getD '\uFFFD')

/-- The text of the bytes, if they are well formed throughout. -/
def decode? (bs : List UInt8) : Option Text := (pieces none bs).mapM id

end CodeAtlas.Utf8
