import CodeAtlas.Gathering
import CodeAtlas.Json.Reader

/-!
# Orders to index a repository

The body of a request names the directory of a workspace and the repository that it belongs to. All that is wrong with the fields of a
body is reported together.
-/

namespace CodeAtlas

/-- What is wrong with the body of a request. -/
inductive BodyFault where
  /-- There is no body. -/
  | absent
  /-- The body is no JSON from some character on. -/
  | malformed (offset : Nat)
  /-- The body is not an object. -/
  | noObject
  | missing (field : String)
  | noString (field : String)
  | empty (field : String)
  deriving DecidableEq, Repr

namespace BodyFault

/-- Where in a request the fault is. -/
def location : BodyFault → List Json
  | absent | noObject => [.str "body"]
  | malformed offset => [.str "body", .int offset]
  | missing field | noString field | empty field => [.str "body", .str field]

/-- The kind of a fault. -/
def kind : BodyFault → String
  | absent | missing _ => "missing"
  | malformed _ => "json_invalid"
  | noObject => "model_attributes_type"
  | noString _ => "string_type"
  | empty _ => "string_too_short"

end BodyFault

/-- An order to index a repository. -/
structure IndexOrder where
  workspacePath : String
  repoId : String
  orgId : String
  /-- The tag of the run, if the order chooses it. -/
  runVersion : Option String := none

namespace IndexOrder

/-- A field that has to be a string with something in it. -/
def requiredText (fields : List (String × Json)) (name : String) : Except BodyFault String :=
  match Json.field? name fields with
  | none => .error (.missing name)
  | some (.str s) => if s.isEmpty then .error (.empty name) else .ok s
  | some _ => .error (.noString name)

/-- A field that may be missing or null. -/
def optionalText (fields : List (String × Json)) (name : String) : Except BodyFault (Option String) :=
  match Json.field? name fields with
  | none | some .null => .ok none
  | some (.str s) => .ok (some s)
  | some _ => .error (.noString name)

/-- The order of an object. -/
def ofFields (fields : List (String × Json)) : Gathering BodyFault IndexOrder := do
  return {
    workspacePath := ← Gathering.check "" (requiredText fields "workspace_path")
    repoId := ← Gathering.check "" (requiredText fields "repo_id")
    orgId := ← Gathering.check "" (requiredText fields "org_id")
    runVersion := ← Gathering.check none (optionalText fields "run_version") }

/-- A text without a byte order mark at its beginning. -/
def withoutMark (t : Text) : Text := if t.head? = some '\uFEFF' then t.tail else t

/-- The order in the body of a request, or all that is wrong with it. -/
def ofBody (body : Text) : Except (List BodyFault) IndexOrder :=
  if body.isEmpty then .error [.absent]
  else match Json.parse (withoutMark body) with
    | .error e => .error [.malformed e.offset]
    | .ok (.object fields) => (ofFields fields).result
    | .ok _ => .error [.noObject]

end IndexOrder

end CodeAtlas
