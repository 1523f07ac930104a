import CodeAtlas.Decimal.Written
import CodeAtlas.Gathering

/-!
# Settings from the environment

A setting is a variable of the environment or else has a default. The text of a variable is read as the kind of value that the setting
is of, and may be refused; all that is wrong with the settings of a group is reported at once, in the order of the group.
-/

namespace CodeAtlas

/-- The variables of an environment. -/
abbrev Environment := List (String × String)

/-- Why the value of a setting is refused. -/
inductive SettingProblem where
  | notWhole
  | notNumber
  | notTruth
  | notChoice
  /-- The value lies below the least one allowed. -/
  | belowLeast
  /-- The value is not above a bound. -/
  | notAbove
  /-- The value is zero or negative. -/
  | notPositive
  deriving DecidableEq, Repr

/-- A setting that is refused. -/
structure SettingFault where
  setting : String
  problem : SettingProblem
  deriving DecidableEq, Repr

namespace Setting

/-- White space around a number does not count. -/
def isSpace (c : Char) : Bool := Text.isBlank c && !(decide ('\x1C' ≤ c) && decide (c ≤ '\x1F'))

/-- The value of a digit. -/
def digit? (c : Char) : Option Nat := if c.isDigit then some (c.toNat - 48) else none

/-- A number without a fraction that consists of zeros alone. -/
def withoutZeros (t : Text) : Text :=
  match Text.cut? ['.'] t with
  | some (whole, frac) => if frac.all (· == '0') then whole else t
  | none => t

/-- A whole number: digits after an optional sign, single underscores between them, and a fraction of zeros at most. -/
def whole (s : String) : Except SettingProblem Int :=
  let (negative, digits) := Decimal.sign (withoutZeros (Text.trim isSpace s.text))
  match Decimal.digitsFrom digit? 0 true digits with
  | some n => .ok (if negative then -(n : Int) else n)
  | none => .error .notWhole

/-- A number. -/
def number (s : String) : Except SettingProblem Binary64 :=
  match Decimal.real? (Text.trim isSpace s.text) with
  | some x => .ok x
  | none => .error .notNumber

/-- A truth value by one of its words, in any case of their letters. -/
def truth (s : String) : Except SettingProblem Bool :=
  let word := String.ofList (s.text.map Char.toLower)
  if ["1", "t", "true", "y", "yes", "on"].contains word then .ok true
  else if ["0", "f", "false", "n", "no", "off"].contains word then .ok false
  else .error .notTruth

/-- Any text. -/
def anyText (s : String) : Except SettingProblem String := .ok s

/-- A whole number that is at least one. -/
def count (s : String) : Except SettingProblem Int := do
  let n ← whole s
  if 1 ≤ n then return n else throw .belowLeast

/-- A number above zero. -/
def duration (s : String) : Except SettingProblem Binary64 := do
  let x ← number s
  if x.compareInt? 0 = some .gt then return x else throw .notAbove

/-- A whole number that is neither zero nor negative. -/
def positiveWhole (s : String) : Except SettingProblem Int := do
  let n ← whole s
  if n ≤ 0 then throw .notPositive else return n

/-- A number that is neither zero nor negative. What is no number is neither. -/
def positiveNumber (s : String) : Except SettingProblem Binary64 := do
  let x ← number s
  match x.compareInt? 0 with
  | some .lt | some .eq => throw .notPositive
  | _ => return x

end Setting

namespace Environment

/-- The value of a variable. -/
def get? (env : Environment) (name : String) : Option String := (env.find? fun v => v.1 == name).map (·.2)

/-- A setting: the value of its variable, or else its default. -/
def setting {α : Type} (env : Environment) (read : String → Except SettingProblem α) (name : String) (default : α) :
    Gathering SettingFault α :=
  match env.get? name with
  | none => pure default
  | some s => Gathering.check default ((read s).mapError fun problem => { setting := name, problem })

end Environment

end CodeAtlas
