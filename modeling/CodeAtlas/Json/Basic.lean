import CodeAtlas.Decimal.Binary64

/-!
# JSON values

Edge metadata, package manifests, stored rows and messages are JSON values. Whole numbers are unbounded and kept apart from doubles;
the fields of an object keep the order in which they were first given.
-/

namespace CodeAtlas

/-- A JSON value. -/
inductive Json where
  | null
  | bool (b : Bool)
  | int (n : Int)
  | float (x : Binary64)
  | str (s : String)
  | list (items : List Json)
  | object (fields : List (String × Json))
  deriving Inhabited

namespace Json

/-- The fields of an object under construction with one more: a repeated name keeps its place and takes the new value. -/
def putField (name : String) (value : Json) : List (String × Json) → List (String × Json)
  | [] => [(name, value)]
  | f :: fs => if f.1 = name then (name, value) :: fs else f :: putField name value fs

/-- The fields with the names of `extra` set to its values. -/
def mergeFields (fields extra : List (String × Json)) : List (String × Json) :=
  extra.foldl (fun fs f => putField f.1 f.2 fs) fields

/-- The value of a field. -/
def field? (name : String) (fields : List (String × Json)) : Option Json :=
  (fields.find? fun f => f.1 == name).map (·.2)

/-- The value of a field of an object. -/
def get? (name : String) : Json → Option Json
  | object fields => field? name fields
  | _ => none

/-- The string of a string value. -/
def str? : Json → Option String
  | str s => some s
  | _ => none

/-- The truth of a value: null, false, zero and whatever is empty count as false. -/
def isTruthy : Json → Bool
  | null => false
  | bool b => b
  | int n => n != 0
  | float x => x.magnitude != 0
  | str s => !s.isEmpty
  | list items => !items.isEmpty
  | object fields => !fields.isEmpty

/-- The string, or null. -/
def ofString? : Option String → Json
  | some s => str s
  | none => null

/-- The number, or null. -/
def ofNat? : Option Nat → Json
  | some n => int n
  | none => null

/-- A list of strings. -/
def ofStrings (ss : List String) : Json := list (ss.map str)

end Json

end CodeAtlas
