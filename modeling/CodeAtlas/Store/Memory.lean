import CodeAtlas.Store.Session

/-!
# The store in memory

Entities and edges are kept under their ids, and each repository may have an active tag. Deleting a tag takes along the edges of deleted
entities, whatever their own tag.
-/

namespace CodeAtlas

/-- Records under distinct keys, in the order in which the keys first came. -/
abbrev Keyed (α : Type) := List (String × α)

namespace Keyed

/-- Puts a record under a key; the record that was there is replaced. -/
def put {α : Type} (key : String) (value : α) : Keyed α → Keyed α
  | [] => [(key, value)]
  | r :: rs => if r.1 = key then (key, value) :: rs else r :: put key value rs

/-- The record under a key. -/
def find {α : Type} (key : String) (records : Keyed α) : Option α := (records.find? fun r => r.1 == key).map (·.2)

/-- All records in the order of their keys. -/
def sorted {α : Type} (records : Keyed α) : List α :=
  (records.mergeSort fun a b => decide (a.1 ≤ b.1)).map (·.2)

end Keyed

/-- A graph store in memory. -/
structure GraphStore where
  entities : Keyed Entity := []
  edges : Keyed Edge := []
  active : Keyed String := []

namespace GraphStore

/-- A store with nothing in it. -/
def empty : GraphStore := {}

/-- Inserts entities or replaces those with the same ids. -/
def upsertEntities (s : GraphStore) (es : List Entity) : GraphStore :=
  { s with entities := es.foldl (fun t e => Keyed.put e.id e t) s.entities }

/-- Inserts edges or replaces those with the same ids. -/
def upsertEdges (s : GraphStore) (es : List Edge) : GraphStore :=
  { s with edges := es.foldl (fun t e => Keyed.put e.id e t) s.edges }

/-- An entity of a repository with a tag. -/
def entityHas (repoId version : String) (e : Entity) : Bool := e.repoId == repoId && e.indexVersion == some version

/-- An edge of a repository with a tag. -/
def edgeHas (repoId version : String) (e : Edge) : Bool := e.repoId == repoId && e.indexVersion == some version

/-- The ids of the entities of a repository with a tag. -/
def entityIds (s : GraphStore) (repoId version : String) : List String :=
  (s.entities.filter fun r => entityHas repoId version r.2).map (·.1)

/-- Deletes the entities and edges of a repository with a tag, and the edges of those entities. -/
def deleteVersion (s : GraphStore) (repoId version : String) : GraphStore :=
  let gone := s.entityIds repoId version
  { s with
    entities := s.entities.filter fun r => !entityHas repoId version r.2
    edges := s.edges.filter fun r => !(edgeHas repoId version r.2 || gone.contains r.2.fromId || gone.contains r.2.toId) }

/-- How many records a store holds. -/
def size (s : GraphStore) : Nat := s.entities.length + s.edges.length

/-- How many records a deletion removes. -/
def deletedBy (s : GraphStore) (repoId version : String) : Nat := s.size - (s.deleteVersion repoId version).size

/-- The active tag of a repository. -/
def activeVersion (s : GraphStore) (repoId : String) : Option String := Keyed.find repoId s.active

/-- Makes a tag the active one of a repository. -/
def setActiveVersion (s : GraphStore) (repoId version : String) : GraphStore :=
  { s with active := Keyed.put repoId version s.active }

/-- How many records of a repository carry each tag. -/
def versionCounts (s : GraphStore) (repoId : String) : VersionCounts where
  entities := TagCounts.ofTags ((s.entities.filter fun r => r.2.repoId == repoId).map (·.2.indexVersion))
  edges := TagCounts.ofTags ((s.edges.filter fun r => r.2.repoId == repoId).map (·.2.indexVersion))

/-- The entities of a repository in the order of their ids. -/
def entitiesOf (s : GraphStore) (repoId : String) : List Entity :=
  Keyed.sorted (s.entities.filter fun r => r.2.repoId == repoId)

/-- The edges of a repository in the order of their ids. -/
def edgesOf (s : GraphStore) (repoId : String) : List Edge :=
  Keyed.sorted (s.edges.filter fun r => r.2.repoId == repoId)

/-- The store in memory as a backend. -/
def backend {m : Type → Type} [Monad m] [MonadStateOf GraphStore m] : StoreBackend m where
  upsertEntities es := do
    modify fun (s : GraphStore) => s.upsertEntities es
    return es.length
  upsertEdges es := do
    modify fun (s : GraphStore) => s.upsertEdges es
    return es.length
  deleteVersion r v := modifyGet fun (s : GraphStore) => ((s.deletedBy r v : Int), s.deleteVersion r v)
  activeVersion r := do return GraphStore.activeVersion (← get) r
  setActiveVersion r v := modify fun (s : GraphStore) => s.setActiveVersion r v
  versionCounts r := do return GraphStore.versionCounts (← get) r

end GraphStore

namespace StoreSession

/-- The next call of a session on a store in memory, and the session that remains. A session that is over stays so. -/
def step {α : Type} (s : GraphStore) : StoreSession α → GraphStore × StoreSession α
  | done a => (s, done a)
  | upsertEntities es next => (s.upsertEntities es, next es.length)
  | upsertEdges es next => (s.upsertEdges es, next es.length)
  | deleteVersion r v next => (s.deleteVersion r v, next (s.deletedBy r v))
  | activeVersion r next => (s, next (s.activeVersion r))
  | setActiveVersion r v next => (s.setActiveVersion r v, next)
  | versionCounts r next => (s, next (s.versionCounts r))

/-- The store and the session after a number of calls: what a session leaves behind that is broken off there. -/
def after {α : Type} : Nat → GraphStore → StoreSession α → GraphStore × StoreSession α
  | 0, s, p => (s, p)
  | n + 1, s, p => after n (p.step s).1 (p.step s).2

/-- The result of a whole session on a store in memory, and the store it leaves. -/
def run {α : Type} (s : GraphStore) (p : StoreSession α) : α × GraphStore := (p.runOn (GraphStore.backend (m := StateM GraphStore))).run s

end StoreSession

end CodeAtlas
