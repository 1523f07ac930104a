import CodeAtlas.Json.Basic
import CodeAtlas.Text.Basic

/-!
# Reading JSON

A text holds one value between blanks. A malformed text is refused with the offset of the character where reading failed. A field
given twice has its last value; the words `NaN` and `Infinity` stand for doubles; a number with a fraction or an exponent is a
double and any other is whole.
-/

namespace CodeAtlas.Json

/-- Where a text stops being JSON. -/
structure Malformed where
  offset : Nat
  deriving Repr, DecidableEq

/-- What is left of a text, and how far in it begins. -/
structure Rest where
  offset : Nat
  text : Text

namespace ReaderAux

/-- The failure at an offset. -/
def fail {α : Type} (offset : Nat) : Except Malformed α := .error ⟨offset⟩

/-- The rest after `n` characters. -/
def drop (r : Rest) (n : Nat) : Rest := ⟨r.offset + n, r.text.drop n⟩

/-- The four blanks of JSON. -/
def isSpace (c : Char) : Bool := c == ' ' || c == '\t' || c == '\n' || c == '\r'

/-- The rest after the blanks in front of it. -/
def skipSpace (r : Rest) : Rest := drop r (r.text.takeWhile isSpace).length

/-- The value of a hexadecimal digit. -/
def hexValue? (c : Char) : Option Nat :=
  if c.isDigit then some (c.toNat - 48)
  else if 'a' ≤ c ∧ c ≤ 'f' then some (c.toNat - 87)
  else if 'A' ≤ c ∧ c ≤ 'F' then some (c.toNat - 55)
  else none

/-- The number written by four hexadecimal digits. -/
def hex4? : Text → Option Nat
  | a :: b :: c :: d :: _ => do
    let a ← hexValue? a
    let b ← hexValue? b
    let c ← hexValue? c
    let d ← hexValue? d
    return ((a * 16 + b) * 16 + c) * 16 + d
  | _ => none

/-- The character of a one-letter escape. -/
def escaped? (c : Char) : Option Char :=
  if c = '"' then some '"' else if c = '\\' then some '\\' else if c = '/' then some '/'
  else if c = 'b' then some '\x08' else if c = 'f' then some '\x0C' else if c = 'n' then some '\n'
  else if c = 'r' then some '\r' else if c = 't' then some '\t' else none

/-- The character of a UTF-16 unit; half of a pair standing alone has none. -/
def ofUnit (n : Nat) : Char := if 0xD800 ≤ n ∧ n < 0xE000 then '\uFFFD' else Char.ofNat n

/-- The inside of a string that began at `begin`, up to and with the closing quote. `fuel` bounds the characters left. -/
def string (begin_ : Nat) : Nat → Rest → Text → Except Malformed (String × Rest)
  | 0, _, _ => fail begin_
  | fuel + 1, r, acc =>
    match r.text with
    | [] => fail begin_
    | '"' :: _ => .ok (String.ofList acc.reverse, drop r 1)
    | '\\' :: 'u' :: after =>
      if after.length ≤ 4 then fail (r.offset + 1)
      else match hex4? after with
        | none => fail (r.offset + 1)
        | some n =>
          let low? : Option Nat :=
            if 0xD800 ≤ n ∧ n < 0xDC00 ∧ 10 < after.length then
              match after.drop 4 with
              | '\\' :: 'u' :: pair => some ((hex4? pair).getD 0x10000)
              | _ => none
            else none
          match low? with
          | some m =>
            if m = 0x10000 then fail (r.offset + 7)
            else if 0xDC00 ≤ m ∧ m < 0xE000 then
              string begin_ fuel (drop r 12) (Char.ofNat (0x10000 + (n - 0xD800) * 0x400 + (m - 0xDC00)) :: acc)
            else string begin_ fuel (drop r 6) (ofUnit n :: acc)
          | none => string begin_ fuel (drop r 6) (ofUnit n :: acc)
    | ['\\'] => fail begin_
    | '\\' :: c :: _ =>
      match escaped? c with
      | some d => string begin_ fuel (drop r 2) (d :: acc)
      | none => fail r.offset
    | c :: _ => if c.toNat < 0x20 then fail r.offset else string begin_ fuel (drop r 1) (c :: acc)

/-- The number written by decimal digits. -/
def natOf (ds : Text) : Nat := ds.foldl (fun n c => n * 10 + (c.toNat - 48)) 0

/-- The sign, the whole digits and the text after them, if a number begins here. -/
def wholePart? (t : Text) : Option (Bool × Text × Text) :=
  let (negative, t) := match t with
    | '-' :: r => (true, r)
    | _ => (false, t)
  match t with
  | '0' :: r => some (negative, ['0'], r)
  | c :: _ => if c.isDigit then some (negative, t.takeWhile Char.isDigit, t.dropWhile Char.isDigit) else none
  | [] => none

/-- The digits of a fraction and the text after them. -/
def fraction (t : Text) : Option Text × Text :=
  match t with
  | '.' :: c :: r =>
    if c.isDigit then (some ((c :: r).takeWhile Char.isDigit), (c :: r).dropWhile Char.isDigit) else (none, t)
  | _ => (none, t)

/-- A power of ten and the text after it. -/
def exponent (t : Text) : Option Int × Text :=
  match t with
  | c :: r =>
    if c = 'e' ∨ c = 'E' then
      let (negative, s) := match r with
        | '-' :: s => (true, s)
        | '+' :: s => (false, s)
        | _ => (false, r)
      let ds := s.takeWhile Char.isDigit
      if ds.isEmpty then (none, t)
      else (some (if negative then -(natOf ds : Int) else natOf ds), s.dropWhile Char.isDigit)
    else (none, t)
  | [] => (none, t)

/-- A number. -/
def number (r : Rest) : Except Malformed (Json × Rest) :=
  match wholePart? r.text with
  | none => fail r.offset
  | some (negative, whole, t₁) =>
    let (frac?, t₂) := fraction t₁
    let (exp?, t₃) := exponent t₂
    let rest := drop r (r.text.length - t₃.length)
    if frac?.isNone && exp?.isNone then
      let n : Int := natOf whole
      .ok (.int (if negative then -n else n), rest)
    else
      let frac := frac?.getD []
      .ok (.float (Binary64.ofDecimal ⟨negative, natOf (whole ++ frac), exp?.getD 0 - frac.length⟩), rest)

/-- The words that stand for values. -/
def words : List (String × Json) :=
  [("null", .null), ("true", .bool true), ("false", .bool false), ("NaN", .float Binary64.nan),
    ("Infinity", .float Binary64.infinity), ("-Infinity", .float Binary64.negativeInfinity)]

mutual

/-- A value. `fuel` bounds the characters left. -/
def value : Nat → Rest → Except Malformed (Json × Rest)
  | 0, r => fail r.offset
  | fuel + 1, r =>
    match r.text with
    | '"' :: _ => do
      let (s, r') ← string r.offset fuel (drop r 1) []
      return (.str s, r')
    | '{' :: _ =>
      let r' := skipSpace (drop r 1)
      match r'.text with
      | '}' :: _ => .ok (.object [], drop r' 1)
      | _ => members fuel r' []
    | '[' :: _ =>
      let r' := skipSpace (drop r 1)
      match r'.text with
      | ']' :: _ => .ok (.list [], drop r' 1)
      | _ => items fuel r' []
    | _ =>
      match words.find? fun w => r.text.startsWith w.1 with
      | some (w, v) => .ok (v, drop r w.length)
      | none => number r

/-- The items of a list from here on, after those of `acc`. -/
def items : Nat → Rest → List Json → Except Malformed (Json × Rest)
  | 0, r, _ => fail r.offset
  | fuel + 1, r, acc => do
    let (v, r') ← value fuel r
    let r' := skipSpace r'
    match r'.text with
    | ']' :: _ => return (.list (v :: acc).reverse, drop r' 1)
    | ',' :: _ => items fuel (skipSpace (drop r' 1)) (v :: acc)
    | _ => fail r'.offset

/-- The fields of an object from here on, after those of `acc`. -/
def members : Nat → Rest → List (String × Json) → Except Malformed (Json × Rest)
  | 0, r, _ => fail r.offset
  | fuel + 1, r, acc =>
    match r.text with
    | '"' :: _ => do
      let (name, r₁) ← string r.offset fuel (drop r 1) []
      let r₁ := skipSpace r₁
      match r₁.text with
      | ':' :: _ =>
        let (v, r₂) ← value fuel (skipSpace (drop r₁ 1))
        let r₂ := skipSpace r₂
        let acc := putField name v acc
        match r₂.text with
        | '}' :: _ => return (.object acc, drop r₂ 1)
        | ',' :: _ => members fuel (skipSpace (drop r₂ 1)) acc
        | _ => fail r₂.offset
      | _ => fail r₁.offset
    | _ => fail r.offset

end

end ReaderAux

/-- The value that a text holds, or where it is malformed. A byte order mark is no part of a JSON text. -/
def parse (t : Text) : Except Malformed Json :=
  if t.head? = some '\uFEFF' then .error ⟨0⟩
  else do
    let (v, r) ← ReaderAux.value (2 * t.length + 2) (ReaderAux.skipSpace ⟨0, t⟩)
    let r := ReaderAux.skipSpace r
    if r.text.isEmpty then return v else ReaderAux.fail r.offset

end CodeAtlas.Json
