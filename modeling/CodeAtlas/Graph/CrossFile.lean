import CodeAtlas.Import.Edges
import CodeAtlas.Source.Calls

/-!
# Calls between files

An import brings names into scope: those it lists, or every function, method and class of what it imports. Where the body of a function
or method of the importing file calls one of them, a call edge leads to the declaration.
-/

namespace CodeAtlas

namespace CrossFile

/-- The kinds that a call from another file may lead to; calling a class makes an instance of it. -/
def targetKinds : List EntityKind := [.function, .method, .class_]

/-- The entities of a repository by file, and the files by the ids of their entities. -/
structure Index where
  entities : List Entity
  known : KnownPaths
  paths : List String
  fileOfId : List (String × String)

/-- The index of a list of entities in a workspace. -/
def Index.ofEntities (repoId : String) (known : KnownPaths) (entities : List Entity) : Index :=
  let paths := ((entities.map (·.filePath)).eraseDups).mergeSort fun a b => decide (a ≤ b)
  { entities, known, paths, fileOfId := (paths ++ known.files).eraseDups.map fun p => (Identity.file repoId p, p) }

namespace Index

/-- The file that an id stands for. -/
def file? (x : Index) (id : String) : Option String := (x.fileOfId.find? fun p => p.1 == id).map (·.2)

/-- The entities of a file in their order. -/
def inFile (x : Index) (path : String) : List Entity := x.entities.filter fun e => e.filePath == path

/-- The files directly in a directory, in order: those of the workspace and those of the entities. -/
def filesIn (x : Index) (dir : String) : List String :=
  ((x.known.filesIn dir ++ x.paths.filter fun p => Path.dirname p == dir).eraseDups).mergeSort fun a b => decide (a ≤ b)

/-- The files whose declarations an import can name: the file it leads to, or else the path it records, which may be a directory. -/
def targetFiles (x : Index) (e : Edge) : List String :=
  match x.file? e.toId with
  | some p => [p]
  | none =>
    match Json.field? "target_path" e.metadata with
    | some (.str p) =>
      if p.isEmpty then []
      else if (Json.field? "target_is_directory" e.metadata).any Json.isTruthy then x.filesIn p
      else [p]
    | _ => []

end Index

/-- Whether an import brings every name of its target into scope. -/
def importsAll (e : Edge) : Bool := (Json.field? "import_all" e.metadata).any Json.isTruthy

/-- An edge that brings names of the workspace into scope. -/
def bringsNames (e : Edge) : Bool := e.kind == .imports && !e.isExternal && (!e.importedSymbols.isEmpty || importsAll e)

/-- The names that an import brings into scope and what they stand for: of several declarations with one name the first, by file and
then by line. -/
def scope (x : Index) (e : Edge) : List (String × Entity) :=
  let declarations := (x.targetFiles e).flatMap fun p => (x.inFile p).mergeSort fun a b => decide (a.startLine ≤ b.startLine)
  Calls.firstByName (declarations.filter fun t =>
    targetKinds.contains t.kind && decide (1 < t.name.length) && (importsAll e || e.importedSymbols.contains t.name))

/-- One of the names at the edge of a word or after `new`, with an opening bracket after it. -/
def site (names : List String) : Pattern :=
  (Pattern.edge ++ "new" ++ Pattern.gap <|> Pattern.edge) ++ .part .name (Pattern.oneOfWords (Calls.ordered names)) ++
    Pattern.blanks ++ "("

/-- The calls of one function or method of names in scope. -/
def callsOf (repoId : String) (via : Edge) (pattern : Pattern) (names : List (String × Entity)) (caller : Entity) : List Edge :=
  match Calls.callerBody? caller with
  | none => []
  | some body =>
    (Calls.called pattern body).filterMap fun name =>
      match Calls.target? names name with
      | some callee =>
        if callee.id = caller.id then none
        else some
          { fromId := caller.id, toId := callee.id, kind := .calls, repoId, confidence := via.confidence
            metadata := [("via_import", (Json.field? "specifier" via.metadata).getD (.str ""))] }
      | none => none

/-- The calls that one import makes possible. -/
def callsThrough (repoId : String) (x : Index) (e : Edge) : List Edge :=
  if !bringsNames e then []
  else match x.file? e.fromId with
    | none => []
    | some importer =>
      let callers := (x.inFile importer).filter fun c => (Calls.callerBody? c).isSome
      if importer.isEmpty || callers.isEmpty then []
      else
        let names := scope x e
        if names.isEmpty then []
        else callers.flatMap (callsOf repoId e (site (names.map (·.1))) names)

end CrossFile

/-- The calls between the files of a repository, each pair of entities once. -/
def crossFileCalls (repoId : String) (known : KnownPaths) (entities : List Entity) (edges : List Edge) : List Edge :=
  let x := CrossFile.Index.ofEntities repoId known entities
  Calls.firstByKey (fun e => (e.fromId, e.toId)) (edges.flatMap (CrossFile.callsThrough repoId x))

end CodeAtlas
