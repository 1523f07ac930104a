import CodeAtlas.Api.IndexOrder
import CodeAtlas.Run.Report
import CodeAtlas.Store.Delivery

/-!
# Answers of the service

What the service has to say to a request, with its status and its body.
-/

namespace CodeAtlas

namespace RunSummary

/-- The fields of the result of a run. -/
def fields (s : RunSummary) : List (String × Json) :=
  [("repo_id", .str s.repoId), ("run_version", .str s.version), ("file_count", .int s.fileCount),
    ("entities_written", .int s.entitiesWritten), ("edges_written", .int s.edgesWritten),
    ("function_count", .int s.functionCount), ("class_count", .int s.classCount), ("covered_files", .int s.coveredFiles),
    ("failed_files", Json.ofStrings s.failedFiles), ("retired_version", Json.ofString? s.retiredVersion)]

end RunSummary

namespace VersionAudit

/-- The fields of an audit. -/
def fields (a : VersionAudit) : List (String × Json) :=
  [("repo_id", .str a.repoId), ("expected_version", .str a.expectedVersion), ("entity_count", .int a.entityCount),
    ("edge_count", .int a.edgeCount), ("unexpected_entities", .int a.unexpectedEntities),
    ("unexpected_edges", .int a.unexpectedEdges), ("unstamped_entities", .int a.unstampedEntities),
    ("unstamped_edges", .int a.unstampedEdges), ("ok", .bool a.ok)]

end VersionAudit

/-- An answer of the service. -/
inductive ApiAnswer where
  | alive
  | indexed (summary : RunSummary)
  | audited (audit : VersionAudit)
  | noSuchPath
  | wrongMethod
  | noWorkspace (path : String)
  | noActiveVersion (repoId : String)
  | badBody (faults : List BodyFault)
  | storeFailed (failure : StoreFailure)
  | notRun (problem : RunProblem)

namespace ApiAnswer

/-- The status of an answer. -/
def status : ApiAnswer → Nat
  | alive | indexed _ | audited _ => 200
  | noSuchPath | noWorkspace _ | noActiveVersion _ => 404
  | wrongMethod => 405
  | badBody _ => 422
  | notRun _ => 500
  | storeFailed _ => 503

/-- A body that says why there is no result. -/
def detail (message : String) : Json := .object [("detail", .str message)]

/-- The body of a failure of the service itself. -/
def failure (kind message : String) : Json :=
  .object [("status", .str "error"), ("detail", .object [("error_type", .str kind), ("message", .str message)])]

/-- The body of an answer. -/
def body : ApiAnswer → Json
  | alive => .object [("status", .str "ok")]
  | indexed s => .object s.fields
  | audited a => .object a.fields
  | noSuchPath => detail "Not Found"
  | wrongMethod => detail "Method Not Allowed"
  | noWorkspace path => detail ("Workspace not found: " ++ path)
  | noActiveVersion repoId => detail ("No active version recorded for repo " ++ repoId)
  | badBody faults => .list (faults.map fun f => .list [.list f.location, .str f.kind])
  | storeFailed f => failure "Graph store unavailable" (f.message?.getD "")
  | notRun (.violation v) => failure "Graph contract violation" v.message
  | notRun .notText => failure "Workspace not readable" "A manifest is no text"

end ApiAnswer

end CodeAtlas
