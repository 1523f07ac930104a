import CodeAtlas.Text.Basic
import CodeAtlas.Text.CaseTable
import CodeAtlas.Text.LetterTable

/-!
# Letters, digits and case

Which characters make up a word, which are upper case, what a lower-case form is, and the value of a decimal digit.
ASCII is decided by its ranges, everything above by the tables.
-/

namespace CodeAtlas.Text

/-- Letters, numerals and the underscore: the characters of a word. -/
def isWordChar (c : Char) : Bool :=
  c.isAlphanum || c == '_' || (decide (128 ≤ c.toNat) && inRanges letterRanges c)

/-- The characters that may begin an ASCII identifier. -/
def isNameStart (c : Char) : Bool := c.isAlpha || c == '_'

/-- Whether `c` lies in a range with a step. -/
def inSteppedRanges (table : List (Nat × Nat × Nat)) (c : Char) : Bool :=
  table.any fun r => decide (r.1 ≤ c.toNat) && decide (c.toNat ≤ r.2.1) && (c.toNat - r.1) % r.2.2 == 0

/-- An upper-case letter. Letters of scripts without case are not upper case. -/
def isUpper (c : Char) : Bool :=
  c.isUpper || (decide (128 ≤ c.toNat) && inSteppedRanges upperRanges c)

/-- The value of a decimal digit of any script. -/
def digitValue? (c : Char) : Option Nat :=
  (digitRanges.find? fun r => decide (r.1 ≤ c.toNat) && decide (c.toNat ≤ r.2)).map fun r => (c.toNat - r.1) % 10

/-- Whether `c` has a visible form or is the ordinary space. -/
def isPrintable (c : Char) : Bool :=
  decide (0x20 ≤ c.toNat) && (decide (c.toNat < 0x7F) || !inRanges unprintableRanges c)

/-- The lower-case form of a single character, itself when it has none. -/
def lowerChar (c : Char) : Char :=
  if c.toNat < 128 then c.toLower
  else
    match lowerCaseRanges.find? fun r =>
        decide (r.1 ≤ c.toNat) && decide (c.toNat ≤ r.2.1) && (c.toNat - r.1) % r.2.2.1 == 0 with
    | some r => Char.ofNat (c.toNat + r.2.2.2).toNat
    | none => c

namespace LowerAux

/-- Whether a text goes on with a letter that has case, ignorable characters passed over. -/
def goesOn : Text → Bool
  | [] => false
  | c :: r => if inRanges caseIgnorableRanges c then goesOn r else inRanges casedRanges c

/-- Lower case from left to right, `after` telling whether a letter with case came before, ignorable characters passed over. A capital
sigma that ends a word takes its final form; a dotted capital i keeps its dot as a combining mark. -/
def lower (after : Bool) : Text → Text
  | [] => []
  | c :: r =>
    if c = 'Σ' then (if after && !goesOn r then 'ς' else 'σ') :: lower true r
    else if c = 'İ' then 'i' :: '\u0307' :: lower true r
    else lowerChar c :: lower (if inRanges caseIgnorableRanges c then after else inRanges casedRanges c) r

end LowerAux

/-- The text in lower case. -/
def lower (t : Text) : Text := LowerAux.lower false t

/-- The ASCII upper-case form of a character, where it has one: two letters above ASCII do. -/
def upperAscii (c : Char) : Char :=
  if c = 'ı' then 'I' else if c = 'ſ' then 'S' else c.toUpper

end CodeAtlas.Text
