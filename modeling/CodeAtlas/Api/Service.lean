import CodeAtlas.Api.Address
import CodeAtlas.Api.Answer
import CodeAtlas.Api.Route

/-!
# The indexing service

The service indexes workspaces on demand and audits what a store holds of a repository. Each request is a session with the store, so
that a store which fails in the middle of a request is reported as such.
-/

namespace CodeAtlas

/-- A request to the service. -/
structure ApiRequest where
  method : String
  address : Address
  body : Text := []

/-- What the service works with. -/
structure IndexingService where
  /-- The workspace in a directory, if there is such a directory. -/
  workspaceAt : String → Option Workspace
  tools : Toolbox
  settings : IndexerSettings
  /-- The tag of a run whose order does not choose one. -/
  freshVersion : String

namespace IndexingService

/-- A string that says something, or else another one. -/
def orElse (s : Option String) (other : String) : String :=
  match s with
  | some t => if t.isEmpty then other else t
  | none => other

/-- Indexes a repository. -/
def index (s : IndexingService) (order : IndexOrder) : StoreSession ApiAnswer :=
  match s.workspaceAt order.workspacePath with
  | none => return .noWorkspace order.workspacePath
  | some workspace => do
    let request : RunRequest :=
      { repoId := order.repoId, version := orElse order.runVersion s.freshVersion, workspace, tools := s.tools, settings := s.settings }
    match ← request.session with
    | .ok report => return .indexed report.summary
    | .error problem => return .notRun problem

/-- Audits a repository against a tag: the expected one, or else the active one. -/
def audit (repoId : String) (expected : Option String) : StoreSession ApiAnswer := do
  let version ← match expected with
    | some v => if v.isEmpty then StoreSession.activeVersion repoId .done else pure (some v)
    | none => StoreSession.activeVersion repoId .done
  match version with
  | some v => if v.isEmpty then return .noActiveVersion repoId else return .audited (← StoreSession.audit repoId v)
  | none => return .noActiveVersion repoId

/-- What the service does on a request. -/
def handle (s : IndexingService) (r : ApiRequest) : StoreSession ApiAnswer :=
  match Route.ofPath? r.address.path with
  | none => return .noSuchPath
  | some route =>
    if route.method != r.method then return .wrongMethod
    else match route with
      | .health => return .alive
      | .index => match IndexOrder.ofBody r.body with
        | .ok order => s.index order
        | .error faults => return .badBody faults
      | .audit repoId => audit repoId (r.address.field? "expected_version")

/-- The answer to a request. -/
def answer {m : Type → Type} [Monad m] (s : IndexingService) (store : StoreBackend (ExceptT StoreFailure m)) (r : ApiRequest) :
    m ApiAnswer := do
  match ← ((s.handle r).runOn store).run with
  | .ok a => return a
  | .error failure => return .storeFailed failure

end IndexingService

end CodeAtlas
