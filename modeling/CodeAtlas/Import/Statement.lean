import CodeAtlas.Text.Basic

/-!
# Import statements

An import names a module by a specifier and brings some of its symbols, or all of them, into scope.
-/

namespace CodeAtlas

/-- One import of a source file. -/
structure ImportStatement where
  specifier : String
  line : Nat
  symbols : List String := []
  typeOnly : Bool := false
  /-- Every symbol of the module is reachable. -/
  importAll : Bool := false
  deriving DecidableEq, Repr

namespace ImportStatement

open Text

/-- The exported name of one item of a symbol list: a `type` in front and a local alias behind are no part of it. -/
def itemName (item : Text) : Text :=
  let name := strip item
  let name := if name.startsWith "type " then strip (name.drop 5) else name
  strip (name.before " as ")

/-- The exported names of a symbol list, each once, a star left out. -/
def symbolList (raw : Text) : List String :=
  let items := splitOn ',' (replace '\n' " " raw)
  let names := (items.filter fun i => !(strip i).isEmpty).map itemName
  ((names.filter fun n => !n.isEmpty && n != ['*']).map String.ofList).eraseDups

/-- The text before the first opening brace and the text from there to the last closing one; without a closing brace after it the
list lacks its last character, and is empty when there is one before it. -/
def braced? (clause : Text) : Option (Text × Text) :=
  (cut? ['\x7b'] clause).map fun (head, tail) =>
    match cutLast? ['\x7d'] tail with
    | some (inner, _) => (head, inner)
    | none => (head, if head.contains '\x7d' then [] else tail.dropLast)

end ImportStatement

end CodeAtlas
