import CodeAtlas.Import.Edges
import CodeAtlas.Source.Block
import CodeAtlas.Source.Calls
import CodeAtlas.Source.Doc
import CodeAtlas.Source.Scope

/-!
# Reading one source file

A file is walked once, and its declarations and the links between them are recorded. What is recorded then becomes entities: for each
declaration the last line, the body, the documentation and the complexity are found, and the calls between the declarations.
-/

namespace CodeAtlas

open Text

/-- A file to be read, and what is known about its surroundings. -/
structure SourceFile where
  repoId : String
  path : String
  content : String
  language : String
  known : KnownPaths
  /-- Longer bodies are cut off. -/
  maxBodyLines : Nat := 3000

/-- A declaration as the walk over a file finds it. -/
structure Declaration where
  id : String
  kind : EntityKind
  name : String
  startLine : Nat
  signature : Option String := none
  exported : Bool := false
  parent : Option String := none
  doc : Option String := none
  isAsync : Bool := false
  parameterCount : Option Nat := none
  returnType : Option String := none
  block : Block := .brace
  /-- The last line, where the walk knows it. -/
  endLine : Option Nat := none

/-- Where the documentation of declarations stands. -/
inductive DocStyle where
  | absent
  /-- In comments above that begin with one of the marks, or in block comments where these are allowed. -/
  | above (marks : List String) (allowBlock : Bool)
  /-- In a string below the header. -/
  | below

/-- The documentation of the declaration at a line. -/
def DocStyle.find (style : DocStyle) (lines : List Text) (line : Nat) : Option Text :=
  match style with
  | absent => none
  | above marks allowBlock => Doc.preceding marks allowBlock (lines.take (line - 1)).reverse
  | below => Doc.docstring (lines.drop (line - 1))

/-- Comments of two slashes and block comments. -/
def DocStyle.cLike : DocStyle := .above ["//"] true

/-- What has been found in a file so far. -/
structure FileScan where
  file : SourceFile
  noise : Noise
  lines : List Text
  decls : List Declaration := []
  edges : List Edge := []

namespace FileScan

/-- The scan of a file before its first line. -/
def start (file : SourceFile) (noise : Noise) : FileScan := { file, noise, lines := Text.lines file.content.text }

/-- The id of the file itself. -/
def fileId (s : FileScan) : String := Identity.file s.file.repoId s.file.path

/-- The id of a declaration in another file of the repository. -/
def idIn (s : FileScan) (path : String) (kind : EntityKind) (name : String) (signature : Option String := none) : String :=
  Identity.entity s.file.repoId path kind.name name signature

/-- The id of a declaration in this file. -/
def localId (s : FileScan) (kind : EntityKind) (name : String) (signature : Option String := none) : String :=
  s.idIn s.file.path kind name signature

/-- A declaration of this file with nothing but its coordinates. -/
def draft (s : FileScan) (kind : EntityKind) (name : String) (line : Nat) (signature : Option String := none) : Declaration :=
  { id := s.localId kind name signature, kind, name, startLine := line, signature }

/-- The recorded declaration with an id. -/
def find? (s : FileScan) (id : String) : Option Declaration := s.decls.find? fun d => d.id == id

/-- Records a declaration, unless one with its id is there already; the recorded one is given back. -/
def declare (s : FileScan) (d : Declaration) : FileScan × Declaration :=
  match s.find? d.id with
  | some e => (s, e)
  | none => ({ s with decls := s.decls ++ [d] }, d)

/-- Changes the declaration with an id. -/
def modify (s : FileScan) (id : String) (f : Declaration → Declaration) : FileScan :=
  { s with decls := s.decls.map fun d => if d.id = id then f d else d }

/-- Records an edge between two different entities. -/
def link (s : FileScan) (fromId toId : String) (kind : EdgeKind) : FileScan :=
  if fromId = toId then s
  else { s with edges := s.edges ++ [{ fromId, toId, kind, repoId := s.file.repoId }] }

/-- Records that a declaration belongs to another. -/
def memberOf (s : FileScan) (member owner : Declaration) : FileScan :=
  (s.modify member.id fun d => { d with parent := some owner.name }).link member.id owner.id .memberOf

/-- The last line of a declaration, never before its first. -/
def endLine (s : FileScan) (d : Declaration) : Nat :=
  max (d.endLine.getD (d.block.endLine s.noise s.lines d.startLine)) d.startLine

/-- The lines of a declaration, those beyond the limit cut off. -/
def bodyLines (s : FileScan) (d : Declaration) : List Text :=
  (s.lines.drop (d.startLine - 1)).take (min (s.endLine d + 1 - d.startLine) s.file.maxBodyLines)

/-- The number of decisions in a body, plus one. -/
def complexityOf (decision : Pattern) (body : Text) : Nat := 1 + (decision.findAll body).length

/-- The entity of a declaration. -/
def toEntity (s : FileScan) (decision : Pattern) (doc : DocStyle) (d : Declaration) : Entity :=
  let bodyLines := s.bodyLines d
  let body := join "\n" bodyLines
  { id := d.id
    repoId := s.file.repoId
    kind := d.kind
    name := d.name
    filePath := s.file.path
    startLine := d.startLine
    endLine := s.endLine d
    language := s.file.language
    signature := d.signature
    exported := d.exported
    doc := d.doc <|> (doc.find s.lines d.startLine).map String.ofList
    parent := d.parent
    body := if bodyLines.isEmpty then none else some (String.ofList body)
    complexity := if body.isEmpty || !d.kind.isCallable then none else some (complexityOf decision body)
    isAsync := d.isAsync
    parameterCount := d.parameterCount
    returnType := d.returnType }

/-- The entities of the declarations, in the order of their lines. -/
def entities (s : FileScan) (decision : Pattern) (doc : DocStyle) : List Entity :=
  (s.decls.mergeSort fun a b => decide (a.startLine ≤ b.startLine)).map (s.toEntity decision doc)

/-- Everything found in the file: its entities; its imports, links and calls, each once. -/
def finish (s : FileScan) (decision : Pattern) (doc : DocStyle) (imports : List Edge := [])
    (callTargets : List EntityKind := EntityKind.callable) : Fragment :=
  let entities := s.entities decision doc
  { entities, edges := Calls.distinctLinks (imports ++ s.edges ++ Calls.withinFile callTargets entities) }

end FileScan

end CodeAtlas
