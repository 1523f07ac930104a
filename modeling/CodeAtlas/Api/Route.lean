import CodeAtlas.Text.Basic

/-!
# Routes of the service
-/

namespace CodeAtlas

/-- What a request can be about. -/
inductive Route where
  /-- Whether the service is alive. -/
  | health
  /-- Indexing a repository. -/
  | index
  /-- The audit of a repository. -/
  | audit (repoId : String)
  deriving DecidableEq, Repr

namespace Route

/-- The method of a route. -/
def method : Route → String
  | health => "GET"
  | index => "POST"
  | audit _ => "GET"

/-- The route of a path by its segments. -/
def ofSegments? : List String → Option Route
  | ["", "health"] => some health
  | ["", "index"] => some index
  | ["", "repos", repoId, "versions", "audit"] => if repoId.isEmpty then none else some (audit repoId)
  | _ => none

/-- The route of a path as it stands. -/
def written? (path : Text) : Option Route := ofSegments? ((Text.splitOn '/' path).map String.ofList)

/-- The route of a path. Slashes at the end of a path lead to the route without them. -/
def ofPath? (path : Text) : Option Route := written? path <|> written? (Text.trimRight (· == '/') path)

end Route

end CodeAtlas
