import CodeAtlas.Json.Basic
import CodeAtlas.Decimal.Shortest
import CodeAtlas.Text.Quoted

/-!
# Writing JSON

A value is written on one line, with a blank after each comma and colon, and in ASCII: every other character is escaped by its
UTF-16 units.
-/

namespace CodeAtlas.Json

namespace WriterAux

/-- The escape of one UTF-16 unit. -/
def unit (n : Nat) : Text := '\\' :: 'u' :: Text.hex 4 n

/-- How a character stands in a JSON string. -/
def escape (c : Char) : Text :=
  if c = '"' then ['\\', '"']
  else if c = '\\' then ['\\', '\\']
  else if c = '\n' then ['\\', 'n']
  else if c = '\r' then ['\\', 'r']
  else if c = '\t' then ['\\', 't']
  else if c = '\x0C' then ['\\', 'f']
  else if c = '\x08' then ['\\', 'b']
  else if 0x20 ≤ c.toNat ∧ c.toNat < 0x7F then [c]
  else if c.toNat < 0x10000 then unit c.toNat
  else
    let n := c.toNat - 0x10000
    unit (0xD800 + n / 0x400) ++ unit (0xDC00 + n % 0x400)

/-- A string between double quotes. -/
def string (s : String) : Text := '"' :: s.text.flatMap escape ++ ['"']

mutual

/-- The text of a value. -/
def value : Json → Text
  | .null => "null".toList
  | .bool true => "true".toList
  | .bool false => "false".toList
  | .int n => (toString n).toList
  | .float x => (x.format Binary64.inJson).toList
  | .str s => string s
  | .list [] => ['[', ']']
  | .list (v :: vs) => '[' :: value v ++ items vs
  | .object [] => ['{', '}']
  | .object (f :: fs) => '{' :: string f.1 ++ ':' :: ' ' :: value f.2 ++ members fs

/-- The items after the first, and the closing bracket. -/
def items : List Json → Text
  | [] => [']']
  | v :: vs => ',' :: ' ' :: value v ++ items vs

/-- The fields after the first, and the closing brace. -/
def members : List (String × Json) → Text
  | [] => ['}']
  | f :: fs => ',' :: ' ' :: string f.1 ++ ':' :: ' ' :: value f.2 ++ members fs

end

end WriterAux

mutual

/-- The value with the fields of all its objects in the order of their names. -/
def sorted : Json → Json
  | .list vs => .list (sortedItems vs)
  | .object fs => .object ((sortedFields fs).mergeSort fun a b => decide (a.1 ≤ b.1))
  | v => v

/-- The items, each with its fields in order. -/
def sortedItems : List Json → List Json
  | [] => []
  | v :: vs => sorted v :: sortedItems vs

/-- The fields in their given order, each value with its fields in order. -/
def sortedFields : List (String × Json) → List (String × Json)
  | [] => []
  | f :: fs => (f.1, sorted f.2) :: sortedFields fs

end

/-- The text of a value, the fields in their order. -/
def write (v : Json) : String := String.ofList (WriterAux.value v)

/-- The text of a value with the fields of every object sorted by name: equal values have equal texts. -/
def writeSorted (v : Json) : String := write (sorted v)

end CodeAtlas.Json
