import CodeAtlas.Decimal.Written
import CodeAtlas.Json.Reader
import CodeAtlas.Store.Delivery
import CodeAtlas.Store.Query
import CodeAtlas.Store.Rows
import CodeAtlas.Store.Session

/-!
# The store behind the repository service

A service that keeps the graph takes requests over HTTP: each call is a JSON body posted to a path, and the answer is a JSON object.
-/

namespace CodeAtlas.Service

/-- A request: a body posted to a path. -/
structure Request where
  path : String
  body : Json

/-- How a request ends. -/
inductive Outcome where
  /-- An answer with a status and a body. -/
  | reply (status : Nat) (body : String)
  /-- No connection, or no answer in time: it may work the next time. -/
  | passing (message : String)
  /-- The exchange broke off. -/
  | broken (message : String)

/-- How the store uses the service. -/
structure Settings where
  batchSize : Nat := 500
  retries : RetryPolicy := { attempts := 3 }

/-- What the paths of the service begin with. -/
def root : String := "/v1/code-graph/"

/-- The fields of an answer to a request for a path. A byte order mark may stand before them. -/
def fieldsOfBody (path body : String) : Except StoreFailure (List (String × Json)) :=
  match Json.parse (Text.dropStart body.text "\uFEFF") with
  | .error _ => .error .unreadable
  | .ok (.object fields) => .ok fields
  | .ok _ => .error (.unavailable (path ++ ": graph repository service returned non-object JSON for " ++ path))

/-- What an outcome means for its attempt: failures of the server may pass, other statuses that are no success do not. -/
def Outcome.judge (path : String) : Outcome → Attempt (List (String × Json))
  | .passing m => .passing (.unavailable (path ++ ": " ++ m))
  | .broken m => .lasting (.unavailable (path ++ ": " ++ m))
  | .reply status body =>
    if 500 ≤ status then .passing (.status status)
    else if status < 200 ∨ 300 ≤ status then .lasting (.status status)
    else match fieldsOfBody path body with
      | .ok fields => .success fields
      | .error f => .lasting f

/-- The work of the store. -/
abbrev Work := Delivery Request Outcome

mutual

/-- Whether all numbers of a value are finite. -/
def isFinite : Json → Bool
  | .float x => !x.isNan && !x.isInfinite
  | .list vs => areFinite vs
  | .object fs => fieldsFinite fs
  | _ => true

/-- Whether all numbers of some values are finite. -/
def areFinite : List Json → Bool
  | [] => true
  | v :: vs => isFinite v && areFinite vs

/-- Whether all numbers of some fields are finite. -/
def fieldsFinite : List (String × Json) → Bool
  | [] => true
  | f :: fs => isFinite f.2 && fieldsFinite fs

end

/-- Posts a body to a path of the service and returns the fields of the answer. -/
def post (s : Settings) (name : String) (fields : List (String × Json)) : Work (List (String × Json)) :=
  let path := root ++ name
  let body := Json.object fields
  if isFinite body then Delivery.ask s.retries (.reply 200 "\x7b\x7d") (Outcome.judge path) ⟨path, body⟩
  else throw .unsendable

/-- The whole number that a value stands for: a text is read, and a fraction is cut off. -/
def wholeOf : Json → Except StoreFailure Int
  | .int n => .ok n
  | .bool b => .ok (if b then 1 else 0)
  | .float x =>
    match x.truncate? with
    | some n => .ok n
    | none => .error (if x.isNan then .undefinedCount else .unboundedCount)
  | .str t =>
    match Decimal.whole? t.text with
    | some n => .ok n
    | none => .error (.noCount t)
  | _ => .error .wrongType

/-- The whole number in a field of an answer, or another one when the field is not there. -/
def wholeField (name : String) (otherwise : Int) (fields : List (String × Json)) : Except StoreFailure Int :=
  match Json.field? name fields with
  | some v => wholeOf v
  | none => .ok otherwise

/-- The string in a field of an answer; a field that is not there counts as null. -/
def textField (name : String) (fields : List (String × Json)) : Except StoreFailure (Option String) :=
  match Json.field? name fields with
  | some (.str t) => .ok (some t)
  | some .null => .ok none
  | none => .ok none
  | some _ => .error .wrongType

/-- Counts by tag; of two items with one tag the later counts. -/
def tagCounts : TagCounts → List Json → Except StoreFailure TagCounts
  | counts, [] => .ok counts
  | counts, .object fields :: rest => do
    let tag ← textField "index_version" fields
    match Json.field? "count" fields with
    | none => .error (.missingField "count")
    | some v => tagCounts (counts.set tag (← wholeOf v)) rest
  | _, _ :: _ => .error .noFields

/-- The counts in a field of an answer, none when the field is not there. A text or an object in its place has items without fields. -/
def tagCountsField (name : String) (fields : List (String × Json)) : Except StoreFailure TagCounts :=
  match Json.field? name fields with
  | none => .ok []
  | some (.list items) => tagCounts [] items
  | some (.str t) => if t.isEmpty then .ok [] else .error .noFields
  | some (.object fields) => if fields.isEmpty then .ok [] else .error .noFields
  | some _ => .error .wrongType

/-- Posts a batch of rows and returns how many were written; a service that does not say so has written all. -/
def mergeBatch (s : Settings) (name : String) (rows : List Json) : Work Int := do
  Delivery.settled (wholeField "written" rows.length (← post s name [("rows", .list rows)]))

/-- Posts the rows of some entities or edges in batches. -/
def mergeRows (s : Settings) (name : String) (rows : List Json) : Work Int :=
  Delivery.sendAll (mergeBatch s name) (Delivery.batches s.batchSize rows)

/-- Posts edges kind by kind. -/
def mergeKinds (s : Settings) : List (EdgeKind × List Edge) → Work Int
  | [] => return 0
  | (k, es) :: rest => do
    let n ← mergeRows s ("merge-edges/" ++ Query.upperKind k) (es.map Edge.row)
    return n + (← mergeKinds s rest)

/-- The fields that name a repository. -/
def ofRepository (repoId : String) : List (String × Json) := [("repo_id", .str repoId)]

/-- The fields that name a repository and a tag. -/
def ofVersion (repoId version : String) : List (String × Json) := [("repo_id", .str repoId), ("index_version", .str version)]

/-- The repository service as a backend. -/
def backend (s : Settings) : StoreBackend Work where
  upsertEntities es := mergeRows s "merge-entities" (es.map Entity.row)
  upsertEdges es := mergeKinds s (Edge.bySortedKind es)
  deleteVersion r v := do
    Delivery.settled (wholeField "deleted" 0 (← post s "delete-by-version" (ofVersion r v)))
  activeVersion r := do
    Delivery.settled (textField "active_version" (← post s "active-version/get" (ofRepository r)))
  setActiveVersion r v := do
    let _ ← post s "active-version/set" (ofVersion r v)
  versionCounts r := do
    let fields ← post s "version-counts" (ofRepository r)
    return { entities := ← Delivery.settled (tagCountsField "entities" fields)
             edges := ← Delivery.settled (tagCountsField "edges" fields) }

end CodeAtlas.Service
