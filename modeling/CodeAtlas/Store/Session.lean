import CodeAtlas.Record

/-!
# Sessions with a graph store

The indexer talks to a graph store in a handful of calls. A session is what it says: which call comes next, and how the session goes on
with each answer. Because the calls are spelled out one by one, a session can be broken off after any of them, run against any store,
or take turns with another session.
-/

namespace CodeAtlas

/-- How many records carry each tag; records without a tag are counted under none. The numbers are what a store reports, and a store
elsewhere may report any. -/
abbrev TagCounts := List (Option String × Int)

namespace TagCounts

/-- One more record with a tag. -/
def add (tag : Option String) : TagCounts → TagCounts
  | [] => [(tag, 1)]
  | c :: cs => if c.1 = tag then (tag, c.2 + 1) :: cs else c :: add tag cs

/-- Sets the count of a tag. -/
def set (tag : Option String) (n : Int) : TagCounts → TagCounts
  | [] => [(tag, n)]
  | c :: cs => if c.1 = tag then (tag, n) :: cs else c :: set tag n cs

/-- The counts of a list of tags. -/
def ofTags (tags : List (Option String)) : TagCounts := tags.foldl (fun counts t => add t counts) []

/-- How many records carry a tag. -/
def count (counts : TagCounts) (tag : Option String) : Int := ((counts.find? fun c => c.1 == tag).map (·.2)).getD 0

/-- How many records there are. -/
def total (counts : TagCounts) : Int := counts.foldr (fun c n => c.2 + n) 0

end TagCounts

/-- How many entities and edges of a repository carry each tag. -/
structure VersionCounts where
  entities : TagCounts := []
  edges : TagCounts := []

/-- A session with a graph store that ends with a result. -/
inductive StoreSession (α : Type) where
  /-- The session is over. -/
  | done (result : α)
  /-- Inserts or updates entities by id; the answer is how many were written. -/
  | upsertEntities (entities : List Entity) (next : Int → StoreSession α)
  /-- Inserts or updates edges by id; the answer is how many were written. -/
  | upsertEdges (edges : List Edge) (next : Int → StoreSession α)
  /-- Deletes all records of a repository with a tag; the answer is how many are gone. -/
  | deleteVersion (repoId version : String) (next : Int → StoreSession α)
  /-- Asks for the active tag of a repository. -/
  | activeVersion (repoId : String) (next : Option String → StoreSession α)
  /-- Makes a tag the active one of a repository. -/
  | setActiveVersion (repoId version : String) (next : StoreSession α)
  /-- Asks how many records of a repository carry each tag. -/
  | versionCounts (repoId : String) (next : VersionCounts → StoreSession α)

/-- A store answers each call, in a monad that carries its state and its failures. -/
structure StoreBackend (m : Type → Type) where
  upsertEntities : List Entity → m Int
  upsertEdges : List Edge → m Int
  deleteVersion : String → String → m Int
  activeVersion : String → m (Option String)
  setActiveVersion : String → String → m Unit
  versionCounts : String → m VersionCounts

namespace StoreSession

/-- Goes on with another session once a session is over. -/
def bind {α β : Type} : StoreSession α → (α → StoreSession β) → StoreSession β
  | done a, f => f a
  | upsertEntities es next, f => upsertEntities es fun n => (next n).bind f
  | upsertEdges es next, f => upsertEdges es fun n => (next n).bind f
  | deleteVersion r v next, f => deleteVersion r v fun n => (next n).bind f
  | activeVersion r next, f => activeVersion r fun v => (next v).bind f
  | setActiveVersion r v next, f => setActiveVersion r v (next.bind f)
  | versionCounts r next, f => versionCounts r fun c => (next c).bind f

instance : Monad StoreSession where
  pure := done
  bind := bind

/-- Runs a session against a store. -/
def runOn {m : Type → Type} [Monad m] {α : Type} (store : StoreBackend m) : StoreSession α → m α
  | done a => pure a
  | upsertEntities es next => do runOn store (next (← store.upsertEntities es))
  | upsertEdges es next => do runOn store (next (← store.upsertEdges es))
  | deleteVersion r v next => do runOn store (next (← store.deleteVersion r v))
  | activeVersion r next => do runOn store (next (← store.activeVersion r))
  | setActiveVersion r v next => do
    store.setActiveVersion r v
    runOn store next
  | versionCounts r next => do runOn store (next (← store.versionCounts r))

end StoreSession

end CodeAtlas
