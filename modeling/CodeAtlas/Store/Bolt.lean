import CodeAtlas.Store.Delivery
import CodeAtlas.Store.Query
import CodeAtlas.Store.Rows
import CodeAtlas.Store.Session

/-!
# The store in a graph database

A graph database reached over the Bolt protocol. Each query runs in a transaction of its own, for writing or for reading.
-/

namespace CodeAtlas.Bolt

/-- A query run in a transaction. -/
structure Request where
  writes : Bool
  database : String
  query : String
  parameters : List (String × Json)

/-- How a transaction ends. -/
inductive Outcome where
  | rows (rows : List Json)
  /-- The database cannot be reached, or the session has expired: it may work the next time. -/
  | passing (message : String)
  /-- The database refuses the query with a failure of the given kind. -/
  | refused (kind : String)

/-- How the store uses the database. -/
structure Settings where
  database : String := "neo4j"
  batchSize : Nat := 500
  retries : RetryPolicy := { attempts := 3 }

namespace Outcome

/-- What an outcome means for its attempt. -/
def judge : Outcome → Attempt (List Json)
  | rows rs => .success rs
  | passing m => .passing (.unavailable m)
  | refused k => .lasting (.refused k)

end Outcome

/-- The work of the store. -/
abbrev Work := Delivery Request Outcome

/-- Runs a query and returns its rows. -/
def runQuery (s : Settings) (writes : Bool) (query : String) (parameters : List (String × Json)) : Work (List Json) :=
  Delivery.ask s.retries (.rows []) Outcome.judge ⟨writes, s.database, query, parameters⟩

/-- A field of a row. -/
def column (name : String) (row : Json) : Except StoreFailure Json :=
  match row.get? name with
  | some v => .ok v
  | none => .error (.missingField name)

/-- The whole number in a field of a row. -/
def wholeColumn (name : String) (row : Json) : Except StoreFailure Int := do
  match ← column name row with
  | .int n => .ok n
  | .bool b => .ok (if b then 1 else 0)
  | _ => .error .wrongType

/-- The sum of a field over all rows. -/
def sumOf (name : String) : List Json → Except StoreFailure Int
  | [] => .ok 0
  | r :: rs => do
    let n ← wholeColumn name r
    return n + (← sumOf name rs)

/-- The string in a field of a row, which may be null. -/
def textColumn (name : String) (row : Json) : Except StoreFailure (Option String) := do
  match ← column name row with
  | .str t => .ok (some t)
  | .null => .ok none
  | _ => .error .wrongType

/-- Counts by tag; of two rows with one tag the later counts. -/
def tagCounts : TagCounts → List Json → Except StoreFailure TagCounts
  | counts, [] => .ok counts
  | counts, r :: rs => do
    let tag ← textColumn "index_version" r
    let n ← wholeColumn "count" r
    tagCounts (counts.set tag n) rs

/-- Runs a query that writes a batch of rows and returns how many it wrote. -/
def mergeBatch (s : Settings) (query : String) (rows : List Json) : Work Int := do
  Delivery.settled (sumOf "written" (← runQuery s true query [("rows", .list rows)]))

/-- Sends the rows of some entities or edges in batches. -/
def mergeRows (s : Settings) (query : String) (rows : List Json) : Work Int :=
  Delivery.sendAll (mergeBatch s query) (Delivery.batches s.batchSize rows)

/-- Sends edges kind by kind. -/
def mergeKinds (s : Settings) : List (EdgeKind × List Edge) → Work Int
  | [] => return 0
  | (k, es) :: rest => do
    match Query.mergeEdges? k with
    | none => throw (.unknownEdgeKind k)
    | some query =>
      let n ← mergeRows s query (es.map Edge.row)
      return n + (← mergeKinds s rest)

/-- The parameters that name a repository. -/
def ofRepository (repoId : String) : List (String × Json) := [("repo_id", .str repoId)]

/-- The parameters that name a repository and a tag. -/
def ofVersion (repoId version : String) : List (String × Json) := [("repo_id", .str repoId), ("index_version", .str version)]

/-- The graph database as a backend. -/
def backend (s : Settings) : StoreBackend Work where
  upsertEntities es := mergeRows s Query.mergeEntities (es.map Entity.row)
  upsertEdges es := mergeKinds s (Edge.bySortedKind es)
  deleteVersion r v := do
    let edges ← runQuery s true Query.deleteEdges (ofVersion r v)
    let n ← Delivery.settled (sumOf "deleted" edges)
    let entities ← runQuery s true Query.deleteEntities (ofVersion r v)
    return n + (← Delivery.settled (sumOf "deleted" entities))
  activeVersion r := do
    match ← runQuery s false Query.activeVersion (ofRepository r) with
    | [] => return none
    | row :: _ => Delivery.settled (textColumn "active_version" row)
  setActiveVersion r v := do
    let _ ← runQuery s true Query.setActiveVersion (ofVersion r v)
  versionCounts r := do
    let entities ← runQuery s false Query.entityCounts (ofRepository r)
    let edges ← runQuery s false Query.edgeCounts (ofRepository r)
    return { entities := ← Delivery.settled (tagCounts [] entities), edges := ← Delivery.settled (tagCounts [] edges) }

end CodeAtlas.Bolt
