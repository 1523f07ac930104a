import CodeAtlas.Path
import CodeAtlas.Record

/-!
# The structure of a repository

Files lie in directories and declarations lie in files; third-party packages stand beside them. These entities and the edges of
containment are derived from the files of a run and from what was found in them.
-/

namespace CodeAtlas

namespace Structure

/-- An entity that lies in a file of the workspace: neither a file or directory itself nor part of a third-party package. -/
def isDeclaration (e : Entity) : Bool := !e.kind.isStructural && !Identity.isExternalPath e.filePath

/-- The files of a run. A path given twice keeps its first place, and there the later file counts. -/
def given (files : List IndexedFile) : List IndexedFile :=
  (files.map (·.path)).eraseDups.filterMap fun p => files.reverse.find? fun f => f.path == p

/-- Adds the file of a declaration, unless it is there. -/
def mention (out : List IndexedFile) (e : Entity) : List IndexedFile :=
  if out.any fun f => f.path == e.filePath then out
  else out ++ [{ path := e.filePath, language := e.language, lineCount := e.endLine.toNat }]

/-- The files of a run, and after them those that only its declarations mention, each as its first declaration tells. -/
def knownFiles (files : List IndexedFile) (entities : List Entity) : List IndexedFile :=
  (entities.filter isDeclaration).foldl mention (given files)

/-- The files of a run and those that only its declarations mention, by path. -/
def allFiles (files : List IndexedFile) (entities : List Entity) : List IndexedFile :=
  (knownFiles files entities).mergeSort fun a b => decide (a.path ≤ b.path)

/-- The directories that the files lie in, by path. -/
def allDirectories (files : List IndexedFile) : List String :=
  ((files.flatMap fun f => (Path.ancestry f.path).filter fun d => !d.isEmpty).eraseDups).mergeSort fun a b => decide (a ≤ b)

/-- The entity of a file. -/
def fileEntity (repoId : String) (f : IndexedFile) : Entity where
  id := Identity.file repoId f.path
  repoId := repoId
  kind := .file
  name := f.path
  filePath := f.path
  startLine := 1
  endLine := max 1 f.lineCount
  language := f.language
  exported := true

/-- The entity of a directory. -/
def directoryEntity (repoId d : String) : Entity where
  id := Identity.directory repoId d
  repoId := repoId
  kind := .directory
  name := d
  filePath := d
  startLine := 0
  endLine := 0
  language := ""
  exported := true

/-- The entity of a third-party package. -/
def packageEntity (repoId language package : String) : Entity where
  id := Identity.externalModule repoId package
  repoId := repoId
  kind := .module_
  name := package
  filePath := Identity.externalPath package
  startLine := 0
  endLine := 0
  language := language
  exported := true

/-- The edge from one entity to another that lies in it. -/
def containment (repoId container member : String) : Edge where
  fromId := container
  toId := member
  kind := .contains
  repoId := repoId

/-- The edge from the directory that a path lies in; there is none at the root of the workspace. -/
def fromParent (repoId path member : String) : List Edge :=
  let d := Path.dirname path
  if d.isEmpty then [] else [containment repoId (Identity.directory repoId d) member]

/-- The third-party packages that edges lead to, each once and with the edge that mentions it first. -/
def packages (edges : List Edge) : List (String × Edge) :=
  edges.foldl (fun out e =>
    match e.packageName with
    | some p => if e.isExternal && !p.isEmpty && !out.any (·.1 == p) then out ++ [(p, e)] else out
    | none => out) []

/-- The languages of files by their ids, the last file first. -/
def languages (repoId : String) (files : List IndexedFile) : List (String × String) :=
  files.reverse.map fun f => (Identity.file repoId f.path, f.language)

/-- The structural entities and edges of a run. A package has the language of the file that imports it first; of two files with one id it
is the later one's. -/
def ofRun (repoId : String) (files : List IndexedFile) (entities : List Entity) (edges : List Edge) : Fragment :=
  let languages := languages repoId (knownFiles files entities)
  let language (id : String) : String := ((languages.find? fun l => l.1 == id).map (·.2)).getD ""
  let files := allFiles files entities
  let dirs := allDirectories files
  { entities := files.map (fileEntity repoId) ++ dirs.map (directoryEntity repoId) ++
      (packages edges).map fun p => packageEntity repoId (language p.2.fromId) p.1
    edges := files.flatMap (fun f => fromParent repoId f.path (Identity.file repoId f.path)) ++
      dirs.flatMap (fun d => fromParent repoId d (Identity.directory repoId d)) ++
      (entities.filter isDeclaration).map fun e => containment repoId (Identity.file repoId e.filePath) e.id }

end Structure

end CodeAtlas
