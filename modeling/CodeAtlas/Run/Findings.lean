import CodeAtlas.Graph.CrossFile
import CodeAtlas.Run.Precise
import CodeAtlas.Run.Reading
import CodeAtlas.Workspace.Packages

/-!
# Findings of a run

A run scans the workspace, indexes its packages where there are tools for it, reads the files that no index covers, and links calls to
what the callers import. Whatever goes wrong with a tool or a file only makes it find less.
-/

namespace CodeAtlas

/-- The stages of a run that report how far they are. -/
inductive Stage where
  | scan
  | precise
  | fallback
  | write
  deriving DecidableEq, Repr

namespace Stage

/-- The name of a stage. -/
def name : Stage → String
  | scan => "scan"
  | precise => "precise"
  | fallback => "fallback"
  | write => "write"

end Stage

/-- A report on a stage: how much of it is done, and how much there is. -/
structure Heartbeat where
  stage : Stage
  done : Int
  total : Int

namespace Heartbeat

/-- A stage that is done. -/
def finished (stage : Stage) (total : Int) : Heartbeat := ⟨stage, total, total⟩

/-- A report after every so many of `total` steps. -/
def every (stage : Stage) (n total : Nat) : List Heartbeat :=
  (((List.range total).map (· + 1)).filter fun k : Nat => k % n == 0).map fun k : Nat => ⟨stage, k, total⟩

end Heartbeat

/-- What is to be indexed, and how. -/
structure RunRequest where
  repoId : String
  version : String
  workspace : Workspace
  tools : Toolbox := fun _ _ => .missing
  registry : Registry := .standard
  settings : IndexerSettings := {}

/-- What a run has found before it writes. -/
structure Findings where
  files : List ScannedFile := []
  entities : List Entity := []
  edges : List Edge := []
  /-- The files that an index speaks of, each once. -/
  covered : List String := []
  lineCounts : LineCounts := []
  /-- The files that were not read in time. -/
  failed : List String := []
  heartbeats : List Heartbeat := []

namespace RunRequest

/-- How many lines of an entity are kept. -/
def maxBodyLines (r : RunRequest) : Nat := r.settings.maxBodyLines.toNat

/-- The indexes of the packages, package by package and in each reader by reader. -/
def indexes (r : RunRequest) (roots : List String) (files : List ScannedFile) : List IndexedSymbols :=
  if r.settings.toolsEnabled then
    roots.flatMap fun root => (r.registry.present files).map fun x => x.indexPackage r.tools r.workspace root r.repoId
  else []

/-- Whether a file is small enough to be read. -/
def isReadable (r : RunRequest) (f : ScannedFile) : Bool :=
  match r.workspace.content? f.path with
  | some bytes => decide ((bytes.length : Int) ≤ r.settings.maxFileBytes)
  | none => false

/-- The readings of the files that are not covered. -/
def readings (r : RunRequest) (files : List ScannedFile) (covered : List String) : FileReadings :=
  let known := KnownPaths.ofFiles (files.map (·.path))
  (files.filter fun f => !covered.contains f.path && r.isReadable f).map fun f =>
    (f, f.reading r.workspace r.registry r.repoId known r.maxBodyLines)

end RunRequest

namespace Findings

/-- How many lines a file has; none when it was not read. -/
def lineCount (f : Findings) (path : String) : Nat := ((f.lineCounts.find? fun c => c.1 == path).map (·.2)).getD 0

/-- The scanned files as they are indexed. -/
def indexedFiles (f : Findings) (registry : Registry) : List IndexedFile :=
  f.files.map fun x => { path := x.path, language := x.language registry, lineCount := f.lineCount x.path }

/-- What a run finds in the packages of a workspace. -/
def ofPackages (r : RunRequest) (roots : List String) : Findings :=
  let files := r.workspace.scan
  let indexes := r.indexes roots files
  let readings := r.readings files ((indexes.flatMap (·.coveredFiles)).eraseDups)
  let filled := Backfill.all r.workspace r.maxBodyLines (indexes.flatMap (·.entities))
  let inTime := readings.inTime
  let entities := filled.1 ++ inTime.flatMap (·.2.found.entities)
  let edges := indexes.flatMap (·.edges) ++ inTime.flatMap (·.2.found.edges)
  let known := KnownPaths.ofFiles (files.map (·.path))
  { files
    entities
    edges := edges ++ crossFileCalls r.repoId known entities edges
    covered := (indexes.flatMap (·.coveredFiles)).eraseDups
    lineCounts := (inTime.filterMap fun x => x.2.lines?.map fun n => (x.1.path, n)) ++ filled.2
    failed := readings.late
    heartbeats :=
      [.finished .scan files.length] ++ Heartbeat.every .precise 1 indexes.length ++
        Heartbeat.every .fallback r.settings.heartbeatEvery.toNat readings.length ++ [.finished .fallback readings.length] }

/-- What a run finds in a workspace. -/
def ofRequest (r : RunRequest) : Except NotText Findings := do
  let packages ← PackageRoots.ofWorkspace r.workspace
  return ofPackages r packages.roots

end Findings

end CodeAtlas
