import CodeAtlas.Json.Basic
import CodeAtlas.Text.Basic

/-!
# Plain scalars

A scalar without quotes stands for null, a truth value or a number when it is written like one, and for its own text otherwise.
-/

namespace CodeAtlas.Yaml

/-- The words for null. -/
def nullWords : List String := ["", "~", "null", "Null", "NULL"]

/-- The words for true. -/
def trueWords : List String := ["yes", "Yes", "YES", "true", "True", "TRUE", "on", "On", "ON"]

/-- The words for false. -/
def falseWords : List String := ["no", "No", "NO", "false", "False", "FALSE", "off", "Off", "OFF"]

/-- The digits of a number, underscores left out; none when another character occurs or there is no digit. -/
def digits? (isDigit : Char → Bool) (t : Text) : Option Text :=
  let ds := t.filter (· != '_')
  if !ds.isEmpty && ds.all isDigit then some ds else none

/-- The number written by digits to a base. -/
def ofDigits (base : Nat) (ds : Text) : Nat :=
  ds.foldl (fun n c => n * base + (if c.isDigit then c.toNat - 48 else c.toLower.toNat - 87)) 0

/-- A digit below eight. -/
def isOctal (c : Char) : Bool := decide ('0' ≤ c) && decide (c ≤ '7')

/-- A digit or one of the letters up to f. -/
def isHex (c : Char) : Bool := c.isDigit || (decide ('a' ≤ c.toLower) && decide (c.toLower ≤ 'f'))

/-- A sign in front of a text, and the rest. -/
def sign (t : Text) : Bool × Text :=
  match t with
  | '-' :: r => (true, r)
  | '+' :: r => (false, r)
  | _ => (false, t)

/-- The whole number that a scalar is written like: decimal, or octal after a zero, hexadecimal or binary. -/
def int? (t : Text) : Option Int :=
  let (negative, body) := sign t
  let n? : Option Nat := match body with
    | '0' :: 'b' :: r => (digits? (fun c => c == '0' || c == '1') r).map (ofDigits 2)
    | '0' :: 'x' :: r => (digits? isHex r).map (ofDigits 16)
    | ['0'] => some 0
    | '0' :: r => (digits? isOctal r).map (ofDigits 8)
    | c :: _ => if c.isDigit then (digits? Char.isDigit body).map (ofDigits 10) else none
    | [] => none
  n?.map fun n => if negative then -(n : Int) else n

/-- The double that a scalar with a point is written like. -/
def float? (t : Text) : Option Binary64 :=
  let (negative, body) := sign t
  match Text.cut? ['.'] body with
  | none => none
  | some (whole, frac) =>
    let ds := whole ++ frac
    if whole.isEmpty && frac.isEmpty then none
    else if whole.head? = some '_' || frac.head? = some '_' && whole.isEmpty then none
    else (digits? Char.isDigit ds).map fun ds =>
      Binary64.ofDecimal ⟨negative, ofDigits 10 ds, -((frac.filter (· != '_')).length : Int)⟩

/-- The value of a plain scalar. -/
def ofPlain (t : Text) : Json :=
  let s := String.ofList t
  if nullWords.contains s then .null
  else if trueWords.contains s then .bool true
  else if falseWords.contains s then .bool false
  else match int? t, float? t with
    | some n, _ => .int n
    | none, some x => .float x
    | none, none => .str s

end CodeAtlas.Yaml
