import CodeAtlas.Record
import CodeAtlas.Text.Quoted

/-!
# The graph contract

What must hold of a batch before it is written: ids are distinct and given, everything belongs to the repository, kinds are known, line
ranges run forward, confidences lie between zero and one, edges have both ends in the batch, and all carry the tag of the run.
-/

namespace CodeAtlas

/-- Why a batch may not be written. -/
inductive ContractViolation where
  | duplicateEntity
  | emptyId (kind : EntityKind) (name : String)
  | foreignEntity (id : String)
  | unknownEntityKind (kind : EntityKind) (id : String)
  | emptyPath (id : String)
  | invertedRange (id : String) (startLine endLine : Int)
  | unstampedEntity (version id : String)
  | duplicateEdge
  | foreignEdge (kind : EdgeKind) (fromId toId : String)
  | unknownEdgeKind (kind : EdgeKind) (id : String)
  | confidenceOutOfRange (id : String)
  | missingEnd (kind : EdgeKind) (fromId toId : String)
  | unstampedEdge (version id : String)
  deriving DecidableEq, Repr

namespace ContractViolation

/-- An edge as a message names it. -/
def arrow (kind : EdgeKind) (fromId toId : String) : String := kind.name ++ " " ++ fromId ++ "->" ++ toId

/-- The message of a violation. -/
def message : ContractViolation → String
  | duplicateEntity => "Duplicate entity id detected"
  | emptyId kind name => "Entity id is empty: " ++ kind.name ++ " " ++ name
  | foreignEntity id => "Entity repo_id mismatch: " ++ id
  | unknownEntityKind kind id => "Unknown entity kind " ++ Text.quote kind.name ++ ": " ++ id
  | emptyPath id => "Entity file_path is empty: " ++ id
  | invertedRange id a b => "Entity line range inverted: " ++ id ++ " (" ++ toString a ++ "-" ++ toString b ++ ")"
  | unstampedEntity version id => "Entity not stamped with run version " ++ version ++ ": " ++ id
  | duplicateEdge => "Duplicate edge id detected"
  | foreignEdge kind a b => "Edge repo_id mismatch: " ++ arrow kind a b
  | unknownEdgeKind kind id => "Unknown edge kind " ++ Text.quote kind.name ++ ": " ++ id
  | confidenceOutOfRange id => "Edge confidence out of range: " ++ id
  | missingEnd kind a b => "Edge endpoint missing from batch: " ++ arrow kind a b
  | unstampedEdge version id => "Edge not stamped with run version " ++ version ++ ": " ++ id

end ContractViolation

namespace Contract

open ContractViolation

/-- Whether the tag of a record is the one of the run; without a run any tag will do. -/
def stampedWith (version : Option String) (tag : Option String) : Bool := version.isNone || tag == version

/-- The first violation of an entity. -/
def ofEntity (repoId : String) (version : Option String) (e : Entity) : Option ContractViolation :=
  if e.id.isEmpty then some (emptyId e.kind e.name)
  else if e.repoId ≠ repoId then some (foreignEntity e.id)
  else if !EntityKind.known.contains e.kind then some (unknownEntityKind e.kind e.id)
  else if e.filePath.isEmpty then some (emptyPath e.id)
  else if e.startLine < 0 ∨ e.endLine < e.startLine then some (invertedRange e.id e.startLine e.endLine)
  else if !stampedWith version e.indexVersion then some (unstampedEntity (version.getD "") e.id)
  else none

/-- The first violation of an edge in a batch with the given entities. -/
def ofEdge (repoId : String) (version : Option String) (ids : List String) (e : Edge) : Option ContractViolation :=
  if e.repoId ≠ repoId then some (foreignEdge e.kind e.fromId e.toId)
  else if !EdgeKind.known.contains e.kind then some (unknownEdgeKind e.kind e.id)
  else if !e.confidence.inUnitInterval then some (confidenceOutOfRange e.id)
  else if !ids.contains e.fromId || !ids.contains e.toId then some (missingEnd e.kind e.fromId e.toId)
  else if !stampedWith version e.indexVersion then some (unstampedEdge (version.getD "") e.id)
  else none

/-- The condition that a list holds no item twice, or the violation. -/
def distinct (v : ContractViolation) (ids : List String) : Option ContractViolation := if ids.Nodup then none else some v

/-- The first violation of a batch: of its entities, then of its edges. -/
def violation? (repoId : String) (version : Option String) (entities : List Entity) (edges : List Edge) : Option ContractViolation :=
  let ids := entities.map (·.id)
  distinct duplicateEntity ids
    <|> entities.findSome? (ofEntity repoId version)
    <|> distinct duplicateEdge (edges.map Edge.id)
    <|> edges.findSome? (ofEdge repoId version ids)

end Contract

end CodeAtlas
