import CodeAtlas.Text.Utf8

/-!
# Text survives its bytes

The bytes of a text are read back as the text: no character of it is taken for a malformed piece, and every first byte announces as many
bytes as follow it.
-/

namespace CodeAtlas.Utf8

/-- A byte in its range adds six bits to a character, and the last one completes it. -/
theorem pieces_continue {p : Pending} {x : Nat} (hx : x < 64) (hlow : p.low ≤ x + 128) (hhigh : x + 128 ≤ p.high) (r : List UInt8) :
    pieces (some p) (UInt8.ofNat (x + 128) :: r) =
      if p.missing ≤ 1 then some (Char.ofNat (p.bits * 64 + x)) :: pieces none r
      else pieces (some { bits := p.bits * 64 + x, missing := p.missing - 1 }) r := by
  have hbyte : (UInt8.ofNat (x + 128)).toNat = x + 128 := by
    rw [UInt8.toNat_ofNat']
    omega
  have hbits : (x + 128) % 64 = x := by omega
  rw [pieces, hbyte, if_pos ⟨hlow, hhigh⟩, hbits]

/-- A continuation byte of a character that misses more than one adds its six bits. -/
theorem pieces_more {bits missing x : Nat} (hx : x < 64) (r : List UInt8) :
    pieces (some { bits, missing := missing + 2 }) (UInt8.ofNat (x + 128) :: r) =
      pieces (some { bits := bits * 64 + x, missing := missing + 1 }) r := by
  rw [pieces_continue hx (Nat.le_add_left 128 x) (by dsimp only; omega), if_neg (by dsimp only; omega)]
  rfl

/-- The last continuation byte completes its character. -/
theorem pieces_last {bits x : Nat} (hx : x < 64) (r : List UInt8) :
    pieces (some { bits, missing := 1 }) (UInt8.ofNat (x + 128) :: r) = some (Char.ofNat (bits * 64 + x)) :: pieces none r := by
  rw [pieces_continue hx (Nat.le_add_left 128 x) (by dsimp only; omega), if_pos (Nat.le_refl 1)]

/-- What a first byte has to say: the bits it brings, how many bytes follow, and a range that `next` lies in. -/
def Announces (b : UInt8) (bits missing next : Nat) : Prop :=
  ∃ p, lead b = .first p ∧ p.bits = bits ∧ p.missing = missing ∧ p.low ≤ next ∧ next ≤ p.high

/-- After a first byte its character goes on with a byte in the range. -/
theorem Announces.pieces {b : UInt8} {bits missing x : Nat} (h : Announces b bits missing (x + 128)) (hx : x < 64) (r : List UInt8) :
    pieces none (b :: UInt8.ofNat (x + 128) :: r) =
      if missing ≤ 1 then some (Char.ofNat (bits * 64 + x)) :: Utf8.pieces none r
      else Utf8.pieces (some { bits := bits * 64 + x, missing := missing - 1 }) r := by
  obtain ⟨p, hlead, rfl, rfl, hlow, hhigh⟩ := h
  rw [Utf8.pieces, hlead]
  exact pieces_continue hx hlow hhigh r

/-- The first byte of a character of two bytes announces one more byte. -/
theorem announces_two {v : Nat} (hlow : 128 ≤ v) (hhigh : v ≤ 2047) :
    Announces (UInt8.ofNat (v / 64 % 32 + 192)) (v / 64) 1 (v % 64 + 128) := by
  have hbyte : (UInt8.ofNat (v / 64 % 32 + 192)).toNat = v / 64 + 192 := by
    rw [UInt8.toNat_ofNat']
    omega
  unfold Announces lead
  rw [hbyte]
  dsimp only
  rw [if_neg (by omega), if_neg (by omega), if_pos (by omega)]
  exact ⟨_, rfl, by dsimp only; omega, rfl, by dsimp only; omega, by dsimp only; omega⟩

/-- The ranges after `E0` and `ED` leave out what needs fewer bytes, and the surrogates. -/
theorem announces_three {v : Nat} (hlow : 2048 ≤ v) (hhigh : v ≤ 65535) (hscalar : v < 0xD800 ∨ 0xDFFF < v) :
    Announces (UInt8.ofNat (v / 4096 % 16 + 224)) (v / 4096) 2 (v / 64 % 64 + 128) := by
  have hbyte : (UInt8.ofNat (v / 4096 % 16 + 224)).toNat = v / 4096 + 224 := by
    rw [UInt8.toNat_ofNat']
    omega
  unfold Announces lead
  rw [hbyte]
  dsimp only
  rw [if_neg (by omega), if_neg (by omega), if_neg (by omega)]
  split
  · exact ⟨_, rfl, by dsimp only; omega, rfl, by dsimp only; omega, by dsimp only; omega⟩
  split
  · exact ⟨_, rfl, by dsimp only; omega, rfl, by dsimp only; omega, by dsimp only; omega⟩
  · rw [if_pos (by omega)]
    exact ⟨_, rfl, by dsimp only; omega, rfl, by dsimp only; omega, by dsimp only; omega⟩

/-- The ranges after `F0` and `F4` leave out what needs fewer bytes, and what is no code point. -/
theorem announces_four {v : Nat} (hlow : 65536 ≤ v) (hhigh : v < 0x110000) :
    Announces (UInt8.ofNat (v / 262144 % 8 + 240)) (v / 262144) 3 (v / 4096 % 64 + 128) := by
  have hbyte : (UInt8.ofNat (v / 262144 % 8 + 240)).toNat = v / 262144 + 240 := by
    rw [UInt8.toNat_ofNat']
    omega
  unfold Announces lead
  rw [hbyte]
  dsimp only
  rw [if_neg (by omega), if_neg (by omega), if_neg (by omega), if_neg (by omega), if_neg (by omega), if_neg (by omega)]
  split
  · exact ⟨_, rfl, by dsimp only; omega, rfl, by dsimp only; omega, by dsimp only; omega⟩
  split
  · exact ⟨_, rfl, by dsimp only; omega, rfl, by dsimp only; omega, by dsimp only; omega⟩
  · rw [if_pos (by omega)]
    exact ⟨_, rfl, by dsimp only; omega, rfl, by dsimp only; omega, by dsimp only; omega⟩

/-- The bytes of a character are read back as the character. -/
theorem pieces_utf8EncodeChar (c : Char) (r : List UInt8) :
    pieces none (String.utf8EncodeChar c ++ r) = some c :: pieces none r := by
  have hscalar : c.val.toNat < 0xD800 ∨ 0xDFFF < c.val.toNat ∧ c.val.toNat < 0x110000 := c.valid
  have hchar : Char.ofNat c.val.toNat = c := Char.ofNat_toNat c
  unfold String.utf8EncodeChar
  dsimp only
  generalize c.val.toNat = v at hchar hscalar
  split
  · have hbyte : (UInt8.ofNat v).toNat = v := by
      rw [UInt8.toNat_ofNat']
      omega
    rw [List.singleton_append, pieces, lead, hbyte, if_pos (by omega), hchar]
  split
  · have hvalue : v / 64 * 64 + v % 64 = v := by omega
    simp only [List.cons_append, List.nil_append]
    rw [(announces_two (by omega) (by omega)).pieces (by omega), if_pos (by omega), hvalue, hchar]
  split
  · have hvalue : (v / 4096 * 64 + v / 64 % 64) * 64 + v % 64 = v := by omega
    simp only [List.cons_append, List.nil_append]
    rw [(announces_three (by omega) (by omega) (by omega)).pieces (by omega), if_neg (by omega), pieces_last (by omega), hvalue, hchar]
  · have hvalue : ((v / 262144 * 64 + v / 4096 % 64) * 64 + v / 64 % 64) * 64 + v % 64 = v := by omega
    simp only [List.cons_append, List.nil_append]
    rw [(announces_four (by omega) (by omega)).pieces (by omega), if_neg (by omega), pieces_more (by omega), pieces_last (by omega),
      hvalue, hchar]

/-- The bytes of a text give the text. -/
theorem decodeLossy_encode (t : Text) : decodeLossy (encode t) = t := by
  have hpieces : pieces none (encode t) = t.map some := by
    induction t with
    | nil => rfl
    | cons c t ih =>
      rw [encode, List.flatMap_cons, pieces_utf8EncodeChar, ← encode, ih]
      rfl
  rw [decodeLossy, hpieces, List.map_map]
  exact List.map_id t

/-- Different texts have different bytes. -/
theorem encode_injective : Function.Injective encode := Function.LeftInverse.injective decodeLossy_encode

end CodeAtlas.Utf8
