import CodeAtlas.Path
import CodeAtlas.Text.Utf8

/-!
# Addresses of requests

The target of a request is a path and a query. Dot segments of the path are resolved first; then percent signs stand for bytes, in the
path and in the names and values of the query, where a plus sign is a space.
-/

namespace CodeAtlas

/-- Where a request goes: its path and the fields of its query. -/
structure Address where
  path : Text
  query : List (String × String) := []

namespace Address

/-- The value of a hexadecimal digit. -/
def hexValue? (c : Char) : Option Nat :=
  if c.isDigit then some (c.toNat - 48)
  else if 'a' ≤ c ∧ c ≤ 'f' then some (c.toNat - 87)
  else if 'A' ≤ c ∧ c ≤ 'F' then some (c.toNat - 55)
  else none

/-- The byte that two hexadecimal digits write. -/
def byte? (high low : Char) : Option UInt8 := do return UInt8.ofNat ((← hexValue? high) * 16 + (← hexValue? low))

/-- The bytes of a text in which a percent sign and two digits stand for a byte. -/
def percentBytes : Text → List UInt8
  | '%' :: a :: b :: r => match byte? a b with
    | some x => x :: percentBytes r
    | none => Utf8.encode ['%'] ++ percentBytes (a :: b :: r)
  | c :: r => Utf8.encode [c] ++ percentBytes r
  | [] => []

/-- The text behind percent signs. -/
def percentDecode (t : Text) : Text := Utf8.decodeLossy (percentBytes t)

/-- The next segment after those in front of it, the last of which comes first. Two dots take one back, but not the empty one in front. -/
def resolveDot (front : List Text) (segment : Text) : List Text :=
  if segment = ['.'] then front
  else if segment = ['.', '.'] then (if front = [[]] then front else front.tail)
  else segment :: front

/-- A path without dot segments. -/
def resolveDots (path : Text) : Text := Text.join "/" (((Text.splitOn '/' path).foldl resolveDot []).reverse)

/-- The fields of a query. -/
def queryFields (query : Text) : List (String × String) :=
  ((Text.splitOn '&' query).filter fun p => !p.isEmpty).map fun p =>
    let (name, value) := (Text.cut? ['='] p).getD (p, [])
    let plain (t : Text) : String := String.ofList (percentDecode (Text.replace '+' " " t))
    (plain name, plain value)

/-- The address that a target names. -/
def ofTarget (target : String) : Address :=
  let (path, query) := (Text.cut? ['?'] (Text.before target.text "#")).getD (Text.before target.text "#", [])
  { path := percentDecode (resolveDots ('/' :: Text.trimLeft (· == '/') path)), query := queryFields query }

/-- The value of a field of the query, the last one if it is given more than once. -/
def field? (a : Address) (name : String) : Option String := (a.query.reverse.find? fun f => f.1 == name).map (·.2)

end Address

end CodeAtlas
