import CodeAtlas.Graph.Batch
import CodeAtlas.Store.Session

/-!
# Generations

Everything that a run writes carries the tag of the run. What is unchanged keeps its id and so moves into the new generation; what
the run did not write again keeps an older tag. Finalizing a run deletes every other tag of the repository, also those of runs that
never came to an end, and makes the tag of the run the active one. Until then the older generation can still be queried.
-/

namespace CodeAtlas

/-- What a write did. -/
structure WriteSummary where
  entitiesWritten : Int
  edgesWritten : Int
  danglingDropped : Nat

namespace StoreSession

/-- Writes a batch: its entities, then its edges. -/
def writeBatch (b : WriteBatch) : StoreSession WriteSummary :=
  upsertEntities b.entities fun n => upsertEdges b.edges fun k =>
    done { entitiesWritten := n, edgesWritten := k, danglingDropped := b.dangling }

/-- Writes what a run has found; a batch that breaks the graph contract is not written at all. -/
def write (repoId : String) (version : Option String) (files : List IndexedFile) (entities : List Entity) (edges : List Edge) :
    StoreSession (Except ContractViolation WriteSummary) :=
  match WriteBatch.ofRun repoId version files entities edges with
  | .error v => done (.error v)
  | .ok b => do return .ok (← writeBatch b)

/-- Deletes one tag after the other. -/
def deleteVersions (repoId : String) : List String → StoreSession Unit
  | [] => done ()
  | v :: vs => deleteVersion repoId v fun _ => deleteVersions repoId vs

/-- The tags in use other than the one of the run, in order. -/
def otherVersions (version : String) (counts : VersionCounts) : List String :=
  ((((counts.entities ++ counts.edges).filterMap (·.1)).filter fun v => !v.isEmpty && v != version).eraseDups).mergeSort
    fun a b => decide (a ≤ b)

/-- The tags that finalizing deletes: the one that was active before, then the others that are in use. -/
def staleVersions (version : String) (previous : Option String) (counts : VersionCounts) : List String :=
  let others := otherVersions version counts
  match previous with
  | some p => if p.isEmpty || p == version then others else p :: others.filter (· != p)
  | none => others

/-- Retires every generation of a repository but that of the run and makes it the active one. The result is the first tag retired. -/
def finalize (repoId version : String) : StoreSession (Option String) :=
  activeVersion repoId fun previous => versionCounts repoId fun counts =>
    let stale := staleVersions version previous counts
    (deleteVersions repoId stale).bind fun _ => setActiveVersion repoId version (done stale.head?)

end StoreSession

/-- The records of a repository against the tag they should carry. -/
structure VersionAudit where
  repoId : String
  expectedVersion : String
  entityCount : Int
  edgeCount : Int
  unexpectedEntities : Int
  unexpectedEdges : Int
  unstampedEntities : Int
  unstampedEdges : Int

namespace VersionAudit

/-- Whether every record carries the expected tag. -/
def ok (a : VersionAudit) : Bool :=
  a.unexpectedEntities == 0 && a.unexpectedEdges == 0 && a.unstampedEntities == 0 && a.unstampedEdges == 0

/-- How many records carry a tag other than the expected one. -/
def unexpected (counts : TagCounts) (version : String) : Int := counts.total - counts.count none - counts.count (some version)

/-- The audit of a repository by its counts. -/
def ofCounts (repoId expected : String) (counts : VersionCounts) : VersionAudit where
  repoId := repoId
  expectedVersion := expected
  entityCount := counts.entities.total
  edgeCount := counts.edges.total
  unexpectedEntities := unexpected counts.entities expected
  unexpectedEdges := unexpected counts.edges expected
  unstampedEntities := counts.entities.count none
  unstampedEdges := counts.edges.count none

end VersionAudit

/-- Counts what would show that an older generation has outlived a run. -/
def StoreSession.audit (repoId expected : String) : StoreSession VersionAudit :=
  versionCounts repoId fun counts => done (.ofCounts repoId expected counts)

end CodeAtlas
