import CodeAtlas.Decimal.Shortest
import CodeAtlas.Json.Reader
import CodeAtlas.Text.Lines
import CodeAtlas.Text.Quoted
import CodeAtlas.Text.Utf8
import CodeAtlas.Yaml.Reader

/-!
# Manifests of package managers

A monorepo says in a manifest where its packages are. A manifest that cannot be read says nothing, with one exception: a YAML manifest
has to be text.
-/

namespace CodeAtlas

/-- A manifest whose bytes are not text. -/
structure NotText where
  deriving DecidableEq, Repr

namespace Manifest

/-- The text of a file, with single line feeds for all line ends. -/
def text? (bytes : List UInt8) : Option Text := (Utf8.decode? bytes).map Text.unifyLineEnds

/-- The fields of a JSON manifest; none at all when it is malformed or no object. -/
def jsonFields (bytes : List UInt8) : List (String × Json) :=
  match (text? bytes).map Json.parse with
  | some (.ok (.object fields)) => fields
  | _ => []

/-- The fields of a YAML manifest; none at all when it is malformed or no map. -/
def yamlFields (bytes : List UInt8) : Except NotText (List (String × Json)) :=
  match text? bytes with
  | none => .error ⟨⟩
  | some t => match Yaml.parse? t with
    | some (.object fields) => .ok fields
    | _ => .ok []

mutual

/-- A value inside a list or map as a pattern shows it. -/
def quotedValue : Json → String
  | .str s => Text.quote s
  | .null => "None"
  | .bool b => if b then "True" else "False"
  | .int n => toString n
  | .float x => x.text
  | .list vs => "[" ++ ", ".intercalate (quotedItems vs) ++ "]"
  | .object fs => "\x7b" ++ ", ".intercalate (quotedFields fs) ++ "\x7d"

/-- The items of a list. -/
def quotedItems : List Json → List String
  | [] => []
  | v :: vs => quotedValue v :: quotedItems vs

/-- The fields of a map. -/
def quotedFields : List (String × Json) → List String
  | [] => []
  | f :: fs => (Text.quote f.1 ++ ": " ++ quotedValue f.2) :: quotedFields fs

end

/-- The pattern that an item of a manifest stands for: a string is one, anything else is taken by its text. -/
def pattern : Json → String
  | .str s => s
  | v => quotedValue v

/-- The patterns of a list; a value that is no list holds none. -/
def patterns : Option Json → List String
  | some (.list vs) => vs.map pattern
  | _ => []

end Manifest

end CodeAtlas
