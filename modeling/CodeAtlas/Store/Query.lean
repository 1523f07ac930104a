import CodeAtlas.Record
import CodeAtlas.Text.Letter

/-!
# Cypher queries

The statements that a graph database runs for the calls of a session. Every write merges on the id of the record, so that repeating it
changes nothing. A relationship type cannot be a parameter of a query; only those of known edge kinds are put into its text.
-/

namespace CodeAtlas.Query

/-- The label of all entities. -/
def entityLabel : String := "__Entity__"

/-- The label of the record that holds the active tag of a repository. -/
def repositoryLabel : String := "__RepoIndex__"

/-- Lines with line feeds between them. -/
def ofLines (ls : List String) : String := "\n".intercalate ls

/-- A node with a variable, a label and the given property values. -/
def node (variable_ label properties : String) : String :=
  "(" ++ variable_ ++ ":" ++ label ++ " \x7b" ++ properties ++ "\x7d)"

/-- The name of a kind in upper case. -/
def upperKind (k : EdgeKind) : String := String.ofList (k.name.text.map Text.upperAscii)

/-- The relationship type of a known edge kind. -/
def relationshipType? (k : EdgeKind) : Option String := if EdgeKind.known.contains k then some (upperKind k) else none

/-- Writes a batch of entities. -/
def mergeEntities : String := ofLines
  ["UNWIND $rows AS row", "MERGE " ++ node "n" entityLabel "id: row.id", "SET n += row.props,", "    n.repo_id = row.repo_id,",
   "    n.index_version = row.index_version", "RETURN count(n) AS written"]

/-- Writes a batch of edges of one kind. -/
def mergeEdges? (k : EdgeKind) : Option String :=
  (relationshipType? k).map fun rel => ofLines
    ["UNWIND $rows AS row", "MATCH " ++ node "src" entityLabel "id: row.from_id", "MATCH " ++ node "dst" entityLabel "id: row.to_id",
     "MERGE (src)-[r:" ++ rel ++ " \x7bid: row.id\x7d]->(dst)", "SET r += row.props,", "    r.repo_id = row.repo_id,",
     "    r.index_version = row.index_version", "RETURN count(r) AS written"]

/-- Deletes the edges of a repository with a tag. -/
def deleteEdges : String := ofLines
  ["MATCH ()-[r]->()", "WHERE r.repo_id = $repo_id AND r.index_version = $index_version", "DELETE r", "RETURN count(r) AS deleted"]

/-- Deletes the entities of a repository with a tag, and their edges. -/
def deleteEntities : String := ofLines
  ["MATCH " ++ node "n" entityLabel "repo_id: $repo_id, index_version: $index_version", "DETACH DELETE n",
   "RETURN count(n) AS deleted"]

/-- Asks for the active tag of a repository. -/
def activeVersion : String := ofLines
  ["MATCH " ++ node "v" repositoryLabel "repo_id: $repo_id", "RETURN v.active_version AS active_version"]

/-- Makes a tag the active one of a repository. -/
def setActiveVersion : String := ofLines
  ["MERGE " ++ node "v" repositoryLabel "repo_id: $repo_id",
   "SET v.active_version = $index_version, v.updated_at = datetime()"]

/-- Counts the entities of a repository by tag. -/
def entityCounts : String := ofLines
  ["MATCH " ++ node "n" entityLabel "repo_id: $repo_id", "RETURN n.index_version AS index_version, count(*) AS count"]

/-- Counts the edges of a repository by tag. -/
def edgeCounts : String := ofLines
  ["MATCH ()-[r]->()", "WHERE r.repo_id = $repo_id", "RETURN r.index_version AS index_version, count(*) AS count"]

end CodeAtlas.Query
