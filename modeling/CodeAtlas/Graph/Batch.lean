import CodeAtlas.Graph.Contract
import CodeAtlas.Graph.Structure
import CodeAtlas.Source.Calls

/-!
# Write batches

What a run has found becomes a batch: the structural entities and edges come first, of several records with one id the first is kept,
edges without both ends are left out, and everything takes the tag of the run. A batch that breaks the graph contract is refused.
-/

namespace CodeAtlas

/-- What is written of a run, and how many edges were left out for want of an end. -/
structure WriteBatch where
  entities : List Entity
  edges : List Edge
  dangling : Nat

namespace WriteBatch

/-- Of several items with one id, the first. -/
def firstById {α : Type} (id : α → String) (items : List α) : List α :=
  (Calls.firstByKey (·.1) (items.map fun x => (id x, x))).map (·.2)

/-- Whether both ends of an edge are among the given ids. -/
def hasEnds (ids : List String) (e : Edge) : Bool := ids.contains e.fromId && ids.contains e.toId

/-- The batch of a run before it is checked. -/
def assemble (repoId : String) (version : Option String) (files : List IndexedFile) (entities : List Entity) (edges : List Edge) :
    WriteBatch :=
  let structural := Structure.ofRun repoId files entities edges
  let allEntities := firstById (·.id) (structural.entities ++ entities)
  let allEdges := firstById Edge.id (structural.edges ++ edges)
  let ids := allEntities.map (·.id)
  let kept := allEdges.filter (hasEnds ids)
  let (entities, edges) := match version with
    | some v => (allEntities.map (Entity.stamp v), kept.map (Edge.stamp v))
    | none => (allEntities, kept)
  { entities, edges, dangling := allEdges.length - kept.length }

/-- The batch of a run, or the first violation of the graph contract. -/
def ofRun (repoId : String) (version : Option String) (files : List IndexedFile) (entities : List Entity) (edges : List Edge) :
    Except ContractViolation WriteBatch :=
  let batch := assemble repoId version files entities edges
  match Contract.violation? repoId version batch.entities batch.edges with
  | some v => .error v
  | none => .ok batch

end WriteBatch

end CodeAtlas
