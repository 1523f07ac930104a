import CodeAtlas.Boundary
import CodeAtlas.Import.Statement
import CodeAtlas.Import.Target
import CodeAtlas.Record

/-!
# Import edges

Every import of a file becomes an edge to the file or directory it names, or to the module of a third-party package. Imports of one
target make one edge: their symbols are gathered, and the first of them decides the rest.
-/

namespace CodeAtlas

/-- Resolves a specifier; none for one that lies outside the workspace. -/
abbrev Resolver := String → Option ImportTarget

/-- Where an import edge leads and what is recorded about it. -/
structure ImportEnd where
  toId : String
  isExternal : Bool
  packageName : Option String
  boundaryCategory : Option String
  confidence : Binary64
  metadata : List (String × Json)

/-- The imports of one target seen so far. -/
structure ImportGroup where
  target : ImportEnd
  line : Nat
  symbols : List String
  typeOnly : Bool
  importAll : Bool

namespace ImportEnd

/-- The end of an import of a path in the workspace. -/
def internal (repoId specifier : String) (t : ImportTarget) : ImportEnd where
  toId := if t.isDirectory then Identity.directory repoId t.path else Identity.file repoId t.path
  isExternal := false
  packageName := none
  boundaryCategory := none
  confidence := if t.resolved then Binary64.one else Binary64.half
  metadata := [("specifier", .str specifier), ("target_path", .str t.path), ("target_is_directory", .bool t.isDirectory)]

/-- The end of an import of a third-party package. -/
def external (repoId language specifier : String) : ImportEnd where
  toId := Identity.externalModule repoId (Boundary.packageName specifier language)
  isExternal := true
  packageName := some (Boundary.packageName specifier language)
  boundaryCategory := some (Boundary.classify specifier language)
  confidence := Binary64.one
  metadata := [("specifier", .str specifier), ("stdlib", .bool (Boundary.isStandardLibrary specifier language))]

/-- Where a statement leads; nowhere when its specifier is blank or names the importing file. -/
def ofStatement (repoId filePath language : String) (resolve : Resolver) (s : ImportStatement) : Option ImportEnd :=
  let specifier := String.ofList (Text.strip s.specifier.text)
  if specifier.isEmpty then none
  else match resolve specifier with
    | some t => if t.path = filePath then none else some (internal repoId specifier t)
    | none => some (external repoId language specifier)

end ImportEnd

namespace ImportGroup

/-- A group before its first statement. -/
def start (target : ImportEnd) (line : Nat) : ImportGroup := { target, line, symbols := [], typeOnly := true, importAll := false }

/-- The group with one more statement. -/
def add (g : ImportGroup) (s : ImportStatement) : ImportGroup :=
  { g with
    symbols := s.symbols.foldl (fun out x => if x.isEmpty || out.contains x then out else out ++ [x]) g.symbols
    typeOnly := g.typeOnly && s.typeOnly
    importAll := g.importAll || s.importAll }

/-- Adds a statement to the group of its target, a new one at the end when there is none. -/
def insert (target : ImportEnd) (s : ImportStatement) : List ImportGroup → List ImportGroup
  | [] => [(start target s.line).add s]
  | g :: gs => if g.target.toId = target.toId then g.add s :: gs else g :: insert target s gs

/-- The edge of a group. -/
def toEdge (repoId fromId : String) (g : ImportGroup) : Edge where
  fromId := fromId
  toId := g.target.toId
  kind := .imports
  repoId := repoId
  importedSymbols := g.symbols
  isExternal := g.target.isExternal
  packageName := g.target.packageName
  boundaryCategory := g.target.boundaryCategory
  confidence := g.target.confidence
  metadata := g.target.metadata ++ [("line", .int g.line)] ++ (if g.typeOnly then [("type_only", .bool true)] else []) ++
    (if g.importAll then [("import_all", .bool true)] else [])

end ImportGroup

/-- One edge for each distinct target of the import statements of a file, in the order in which the targets first occur. -/
def importEdges (repoId filePath language : String) (resolve : Resolver) (statements : List ImportStatement) : List Edge :=
  let groups := statements.foldl (fun gs s =>
    match ImportEnd.ofStatement repoId filePath language resolve s with
    | some target => ImportGroup.insert target s gs
    | none => gs) []
  groups.map (ImportGroup.toEdge repoId (Identity.file repoId filePath))

/-- The file that an edge imports from, when it imports from a single file of the workspace. -/
def Edge.importedFile? (e : Edge) : Option String :=
  if e.kind ≠ .imports ∨ e.isExternal ∨ (Json.field? "target_is_directory" e.metadata).any Json.isTruthy then none
  else match Json.field? "target_path" e.metadata with
    | some (.str p) => if p.isEmpty then none else some p
    | _ => none

/-- For each imported symbol the file it was first imported from. -/
def importedSymbolFiles (edges : List Edge) : List (String × String) :=
  edges.foldl (fun out e =>
    match e.importedFile? with
    | some p => e.importedSymbols.foldl (fun out s => if out.any (·.1 == s) then out else out ++ [(s, p)]) out
    | none => out) []

/-- The file that a symbol was imported from. -/
def fileOfSymbol? (imported : List (String × String)) (name : String) : Option String :=
  (imported.find? fun p => p.1 == name).map (·.2)

end CodeAtlas
