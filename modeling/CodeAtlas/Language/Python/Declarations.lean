import CodeAtlas.Language.Python.Imports
import CodeAtlas.Source.Scan

/-!
# Declarations of Python

Classes, functions, methods and decorators are scoped by indentation: a line belongs to the nearest declaration above it that is
indented less.
-/

namespace CodeAtlas.Python

open Text Pattern

/-- The places where a body makes a decision. -/
def decision : Pattern := edge ++ oneOfWords ["if", "elif", "for", "while", "except", "and", "or"] ++ edge

/-- Type parameters in square brackets. -/
def typeParameters : Pattern := opt ("[" ++ any0 (except "]") ++ "]")

/-- A function or method. -/
def defHeader : Pattern :=
  start ++ blanks ++ opt (.part .async ("async" ++ gap)) ++ "def" ++ gap ++ .part .name identifier ++ blanks ++ typeParameters ++
    blanks ++ "("

/-- A class with the text between its round brackets. -/
def classHeader : Pattern :=
  start ++ blanks ++ "class" ++ gap ++ .part .name identifier ++ blanks ++ typeParameters ++ blanks ++
    opt ("(" ++ .part .bases (any0 inLine) ++ ")") ++ blanks ++ ":"

/-- A decorator. -/
def decorator : Pattern := start ++ blanks ++ "@" ++ .part .name (one Text.isNameStart ++ any0 (wordOr "."))

/-- The annotation after a parameter list, up to the colon that ends the header. -/
def returnClause : Pattern :=
  ")" ++ blanks ++ "->" ++ blanks ++ .part .returnType (few1 inLine) ++ blanks ++ ":" ++ blanks ++ opt ("#" ++ any0 inLine) ++ ending

/-- The list of public names. -/
def publicList : Pattern :=
  lineStart ++ "__all__" ++ blanks ++ opt (":" ++ any0 (except "=")) ++ "=" ++ blanks ++ one (among "[(") ++
    .part .items (any0 (except "])")) ++ one (among "])")

/-- A name between quotes. -/
def quotedName : Pattern := one (among "'\"") ++ .part .name identifier ++ one (among "'\"")

/-- The names that a file lists as public, if it does. -/
def publicNames? (content : Text) : Option (List String) :=
  (publicList.search? content).map fun m => (quotedName.findAll (m.get .items)).map fun q => String.ofList (q.get .name)

/-- Whether a module-level name is public: listed, or without an underscore in front when there is no list. -/
def isPublic (listed : Option (List String)) (name : String) : Bool :=
  match listed with
  | some names => names.contains name
  | none => !name.text.startsWith "_"

/-- The plain base classes in a class header: what is assigned or starred is none, and subscripts are dropped. -/
def baseClassNames (raw : Text) : List String :=
  (splitOn ',' raw).filterMap fun part =>
    let part := strip part
    if part.isEmpty || part.contains '=' || startsWith part "*" then none
    else
      let name := strip (before part "[")
      if identifier.isWhole name && name != "object".toList then some (String.ofList name) else none

/-- The parameters that are not counted. -/
def uncounted : List String := ["self", "cls", "*", "/"]

/-- What is known before the walk begins. -/
structure Names where
  imported : List (String × String)
  listed : Option (List String)

/-- The scan of a file and the declarations around the current line, each with its indentation, the innermost first. -/
structure State where
  scan : FileScan
  scopes : List (Nat × Declaration) := []

/-- Records a function, or a method when the innermost scope is a class. -/
def declareFunction (names : Names) (lines : List Text) (line indent : Nat) (m : Match) (s : State) : State :=
  let header := Header.joined .hash lines
  let name := String.ofList (m.get .name)
  let params := Header.bracketedText header
  let shown := "(" ++ String.ofList (squeeze params) ++ ")"
  let fill (d : Declaration) : Declaration :=
    { d with
      block := .indent
      isAsync := m.has .async
      parameterCount := some (Header.countParameters params uncounted)
      returnType := (returnClause.search? header).map fun r => String.ofList (strip (r.get .returnType)) }
  let asFunction (exported : Bool) : State :=
    let (scan, d) := s.scan.declare
      { fill (s.scan.draft .function name line (some ("def " ++ name ++ shown))) with exported }
    { scan, scopes := (indent, d) :: s.scopes }
  match s.scopes with
  | [] => asFunction (isPublic names.listed name)
  | (_, owner) :: _ =>
    if owner.kind = .class_ then
      let (scan, d) := s.scan.declare
        { fill (s.scan.draft .method name line (some (owner.name ++ "." ++ name ++ shown))) with
          exported := owner.exported && !name.text.startsWith "_" }
      { scan := scan.memberOf d owner, scopes := (indent, d) :: s.scopes }
    else asFunction false

/-- Records a class and what it extends. -/
def declareClass (names : Names) (line indent : Nat) (m : Match) (s : State) : State :=
  let name := String.ofList (m.get .name)
  let (scan, d) := s.scan.declare
    { s.scan.draft .class_ name line with block := .indent, exported := s.scopes.isEmpty && isPublic names.listed name }
  let target (base : String) : String :=
    match fileOfSymbol? names.imported base with
    | some path => scan.idIn path .class_ base
    | none => scan.localId .class_ base
  let scan := (baseClassNames (m.get .bases)).foldl (fun scan base => scan.link d.id (target base) .extending) scan
  { scan, scopes := (indent, d) :: s.scopes }

/-- Reads the line at the head of the lines. -/
def visit (names : Names) (lines : List Text) (line : Nat) (s : State) : State :=
  let l := lines.headD []
  let trimmed := strip l
  if trimmed.isEmpty || startsWith trimmed "#" then s
  else
    let indent := Text.indent l
    let s := { s with scopes := s.scopes.dropWhile fun scope => decide (indent ≤ scope.1) }
    match decorator.matchStart? l with
    | some m => { s with scan := (s.scan.declare { s.scan.draft .decorator (String.ofList (m.get .name)) line with block := .line }).1 }
    | none =>
    match defHeader.matchStart? l with
    | some m => declareFunction names lines line indent m s
    | none =>
    match classHeader.matchStart? (if l.contains '(' then Header.joined .hash lines else l) with
    | some m => declareClass names line indent m s
    | none => s

/-- Reads the lines from number `line` on. -/
def walk (names : Names) : (line : Nat) → List Text → State → State
  | _, [], s => s
  | line, l :: ls, s => walk names (line + 1) ls (visit names (l :: ls) line s)

/-- The declarations, imports and calls of a file. -/
def read (file : SourceFile) : Fragment :=
  let scan := FileScan.start file .hash
  let edges := importEdges file.repoId file.path file.language (resolve file.known file.path) (importStatements scan.lines)
  let names : Names := { imported := importedSymbolFiles edges, listed := publicNames? file.content.text }
  (walk names 1 scan.lines { scan }).scan.finish decision .below edges

end CodeAtlas.Python
