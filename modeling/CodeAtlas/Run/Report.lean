import CodeAtlas.Run.Findings
import CodeAtlas.Store.Generation

/-!
# Indexing a repository

A run writes what it has found as a new generation of its repository and then retires every older one.
-/

namespace CodeAtlas

/-- Why a run ends without a result. -/
inductive RunProblem where
  /-- A manifest is no text. -/
  | notText
  | violation (v : ContractViolation)

/-- The result of a run. -/
structure RunSummary where
  repoId : String
  version : String
  fileCount : Nat
  entitiesWritten : Int
  edgesWritten : Int
  /-- How many functions and methods were found. -/
  functionCount : Nat
  classCount : Nat
  /-- How many files an index speaks of. -/
  coveredFiles : Nat
  /-- The files that were not read in time, in order. -/
  failedFiles : List String
  retiredVersion : Option String

namespace RunSummary

/-- The result of a run by what it found, what it wrote and what it retired. -/
def ofFindings (r : RunRequest) (f : Findings) (w : WriteSummary) (retired : Option String) : RunSummary where
  repoId := r.repoId
  version := r.version
  fileCount := f.files.length
  entitiesWritten := w.entitiesWritten
  edgesWritten := w.edgesWritten
  functionCount := f.entities.countP fun e => EntityKind.callable.contains e.kind
  classCount := f.entities.countP fun e => e.kind == .class_
  coveredFiles := f.covered.length
  failedFiles := f.failed.mergeSort fun a b => decide (a ≤ b)
  retiredVersion := retired

end RunSummary

/-- The result of a run and what it reported on its way. -/
structure RunReport where
  summary : RunSummary
  heartbeats : List Heartbeat

namespace RunRequest

/-- Writes findings as a new generation and retires the older ones. -/
def deliver (r : RunRequest) (f : Findings) : StoreSession (Except RunProblem RunReport) := do
  match ← StoreSession.write r.repoId (some r.version) (f.indexedFiles r.registry) f.entities f.edges with
  | .error v => return .error (.violation v)
  | .ok w =>
    let retired ← StoreSession.finalize r.repoId r.version
    return .ok
      { summary := .ofFindings r f w retired
        heartbeats := f.heartbeats ++ [.finished .write w.entitiesWritten] }

/-- The whole run as a session with a store. -/
def session (r : RunRequest) : StoreSession (Except RunProblem RunReport) :=
  match Findings.ofRequest r with
  | .error _ => .done (.error .notText)
  | .ok f => r.deliver f

end RunRequest

end CodeAtlas
