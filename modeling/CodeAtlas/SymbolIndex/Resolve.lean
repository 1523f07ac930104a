import CodeAtlas.Language.Extension
import CodeAtlas.Source.Calls
import CodeAtlas.SymbolIndex.Descriptor
import CodeAtlas.SymbolIndex.Document

/-!
# From documents to the graph

Every definition of an index becomes an entity. A reference belongs to the entity that begins last at or before its line, and becomes
an edge from that entity to the first definition of the symbol.
-/

namespace CodeAtlas

namespace Path

/-- The extension of the last segment of a path with its dot, which is neither the first nor the last character of it. Dots and empty
segments do not count as segments. -/
def suffix (p : String) : String :=
  let name := ((Text.splitOn '/' p.text).filter fun s => !s.isEmpty && s != ['.']).getLastD []
  match Text.cutLast? ['.'] name with
  | some (stem, ext) => if stem.isEmpty || ext.isEmpty then "" else String.ofList ('.' :: ext)
  | none => ""

end Path

/-- Entities and edges of an index and the files it covers. -/
structure IndexedSymbols where
  entities : List Entity := []
  edges : List Edge := []
  coveredFiles : List String := []

namespace IndexedSymbols

/-- Where an index belongs: a repository, the language of its tool, and the directory of the package in the workspace. -/
structure Place where
  repoId : String
  language : String
  root : String := ""

/-- The path of a document in the workspace. -/
def Place.path (p : Place) (relative : String) : String :=
  if p.root.isEmpty || p.root == "." then relative
  else String.ofList (Text.trimRight (· == '/') p.root.text) ++ "/" ++ relative

/-- An occurrence and the path of the file it lies in. -/
structure Site where
  path : String
  occurrence : Occurrence

/-- The definition of a symbol. -/
structure Definition where
  symbol : String
  entity : Entity

/-- All occurrences of symbols that are not local to their file. -/
def sites (place : Place) (docs : List Document) : List Site :=
  docs.flatMap fun d =>
    (d.occurrences.filter fun o => !Descriptor.isLocal o.symbol).map fun o => ⟨place.path d.path, o⟩

/-- The entity of a definition. -/
def entityOf (place : Place) (s : Site) (d : Descriptor) : Entity :=
  { id := Identity.entity place.repoId s.path d.kind.name d.name d.signature
    repoId := place.repoId
    kind := d.kind
    name := d.name
    filePath := s.path
    startLine := s.occurrence.startLine
    endLine := s.occurrence.endLine
    language := (languageOfExtension? (Path.suffix s.path)).getD place.language
    signature := d.signature }

/-- The definition at a site, if the symbol is defined there and says what it is. -/
def definition? (place : Place) (s : Site) : Option Definition :=
  if s.occurrence.isDefinition then
    (Descriptor.ofSymbol s.occurrence.symbol).map fun d => ⟨s.occurrence.symbol, entityOf place s d⟩
  else none

/-- All definitions in the order of the documents. -/
def definitions (place : Place) (docs : List Document) : List Definition := (sites place docs).filterMap (definition? place)

/-- The first definition of a symbol. -/
def target? (defs : List Definition) (symbol : String) : Option Entity :=
  (defs.find? fun d => d.symbol == symbol).map (·.entity)

/-- Entities in the order of their lines, on one line in the order of their ids. -/
def startsBefore (a b : Entity) : Bool :=
  decide (a.startLine < b.startLine) || (a.startLine == b.startLine && decide (a.id ≤ b.id))

/-- How many of the ordered start lines are at or before a line, given that it is at least `low` and at most `high`: the line in the
middle tells in which half to go on. -/
def begunBy (starts : List Int) (line : Int) (low high : Nat) : Nat :=
  if low < high then
    let middle := (low + high) / 2
    if line < starts.getD middle 0 then begunBy starts line low middle else begunBy starts line (middle + 1) high
  else low
termination_by high - low

/-- The last of some ordered rows of lines and ids that begins at or before a line. -/
def container? (rows : List (Int × String)) (line : Int) : Option String :=
  match begunBy (rows.map (·.1)) line 0 rows.length with
  | 0 => none
  | before + 1 => rows[before]?.map (·.2)

/-- The entities of a file as ordered rows of lines and ids. -/
def rowsOf (entities : List Entity) (path : String) : List (Int × String) :=
  ((entities.filter fun e => e.filePath == path).mergeSort startsBefore).map fun e => (e.startLine, e.id)

/-- The edge of a reference, if both its ends are known and differ. -/
def reference? (place : Place) (defs : List Definition) (entities : List Entity) (s : Site) : Option Edge :=
  if s.occurrence.isDefinition then none
  else
    (target? defs s.occurrence.symbol).bind fun target =>
      (container? (rowsOf entities s.path) s.occurrence.startLine).bind fun container =>
        if container = target.id then none
        else some
          { fromId := container, toId := target.id, repoId := place.repoId
            kind := if target.kind.isCallable then .calls else .references }

/-- The entities and edges of some documents. -/
def ofDocuments (place : Place) (docs : List Document) : IndexedSymbols :=
  let defs := definitions place docs
  let entities := Calls.firstByKey Entity.id (defs.map (·.entity))
  { entities
    edges := Calls.firstByKey (fun e => (e.fromId, e.toId)) ((sites place docs).filterMap (reference? place defs entities))
    coveredFiles := docs.map fun d => place.path d.path }

/-- The entities and edges of an index. -/
def ofIndex (place : Place) (index : List UInt8) : IndexedSymbols := ofDocuments place (Document.decodeAll index)

end IndexedSymbols

end CodeAtlas
