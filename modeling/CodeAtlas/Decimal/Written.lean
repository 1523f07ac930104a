import CodeAtlas.Decimal.Binary64
import CodeAtlas.Text.Letter

/-!
# Numbers in text

A whole number is written with an optional sign and decimal digits of any script; single underscores may stand between digits, and
blanks around the whole. A decimal number is written with an optional sign, digits with an optional point among them, and an optional
power of ten; single underscores may stand between digits. The words for infinity and for what is no number count too, in any case of
their letters.
-/

namespace CodeAtlas.Decimal

/-! ## Whole numbers -/

/-- A sign in front of a text, and the rest. -/
def sign : Text → Bool × Text
  | '-' :: r => (true, r)
  | '+' :: r => (false, r)
  | t => (false, t)

/-- The number written by digits after those that make up `n`; `open_` says that a digit must follow. -/
def digitsFrom (digit? : Char → Option Nat) : (n : Nat) → (open_ : Bool) → Text → Option Nat
  | n, open_, [] => if open_ then none else some n
  | n, open_, c :: r =>
    match digit? c with
    | some d => digitsFrom digit? (n * 10 + d) false r
    | none => if c == '_' && !open_ then digitsFrom digit? n true r else none

/-- The whole number that a text stands for. -/
def whole? (t : Text) : Option Int :=
  let (negative, digits) := sign (Text.strip t)
  (digitsFrom Text.digitValue? 0 true digits).map fun n => if negative then -(n : Int) else n

/-! ## Decimal numbers -/

/-- The text without its underscores, each of which has to stand between two digits. `digit` says that a digit came last. -/
def withoutUnderscores? : (digit : Bool) → Text → Option Text
  | _, [] => some []
  | digit, '_' :: r => if digit && (r.head?.map Char.isDigit).getD false then withoutUnderscores? false r else none
  | _, c :: r => (withoutUnderscores? c.isDigit r).map (c :: ·)

/-- The number written by decimal digits. -/
def ofDigits (ds : Text) : Nat := ds.foldl (fun n c => n * 10 + (c.toNat - 48)) 0

/-- The power of ten that a text consists of; an empty text stands for none. -/
def powerOfTen? : Text → Option Int
  | [] => some 0
  | e :: r =>
    let (negative, ds) : Bool × Text := match r with
      | '-' :: s => (true, s)
      | '+' :: s => (false, s)
      | _ => (false, r)
    if (e == 'e' || e == 'E') && !ds.isEmpty && ds.all Char.isDigit then
      some (if negative then -(ofDigits ds : Int) else ofDigits ds)
    else none

/-- The digits of a fraction after a point, and the text after them. -/
def fractionPart : Text → Text × Text
  | '.' :: r => (r.takeWhile Char.isDigit, r.dropWhile Char.isDigit)
  | t => ([], t)

/-- The number that digits, a point and a power of ten stand for. -/
def finite? (negative : Bool) (t : Text) : Option Binary64 := do
  let t ← withoutUnderscores? false t
  let whole := t.takeWhile Char.isDigit
  let (frac, rest) := fractionPart (t.dropWhile Char.isDigit)
  let e ← powerOfTen? rest
  if whole.isEmpty && frac.isEmpty then none
  else some (.ofDecimal ⟨negative, ofDigits (whole ++ frac), e - frac.length⟩)

/-- The number that a text without a sign stands for. -/
def unsigned? (negative : Bool) (t : Text) : Option Binary64 :=
  let word := String.ofList (t.map Char.toLower)
  if word = "nan" then some .nan
  else if word = "inf" ∨ word = "infinity" then some (if negative then .negativeInfinity else .infinity)
  else finite? negative t

/-- The number that a text stands for. -/
def real? : Text → Option Binary64
  | '-' :: r => unsigned? true r
  | '+' :: r => unsigned? false r
  | t => unsigned? false t

end CodeAtlas.Decimal
