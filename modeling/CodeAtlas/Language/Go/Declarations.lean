import CodeAtlas.Language.Go.Imports
import CodeAtlas.Source.Scan

/-!
# Declarations of Go

Functions, methods and types begin at the start of a line. A name with an upper-case initial is exported.
-/

namespace CodeAtlas.Go

open Text Pattern

/-- The places where a body makes a decision. -/
def decision : Pattern :=
  (edge ++ anyOf ["if", "else" ++ gap ++ "if", "for", "case", "select"] ++ edge) <|> lit "&&" <|> lit "||"

/-- Type parameters in square brackets. -/
def typeParameters : Pattern := opt ("[" ++ any0 (except "]") ++ "]")

/-- A function, or a method with its receiver. -/
def funcHeader : Pattern :=
  start ++ "func" ++ gap ++
    opt ("(" ++ blanks ++ opt (word ++ gap) ++ opt "*" ++ blanks ++ .part .receiver identifier ++ typeParameters ++ blanks ++ ")" ++
      blanks) ++
    .part .name identifier ++ blanks ++ typeParameters ++ blanks ++ "("

/-- A type. -/
def typeHeader : Pattern :=
  start ++ "type" ++ gap ++ .part .name identifier ++ typeParameters ++ gap ++ opt ("=" ++ blanks) ++
    opt (.part .shape (oneOfWords ["struct", "interface"])) ++ edge

/-- The receiver of a method. -/
def receiver : Pattern := start ++ "func" ++ blanks ++ "(" ++ any0 (except ")") ++ ")"

/-- The parameters of a header and the text of its results. -/
def paramsAndResult (header : Text) : Text × Option Text :=
  let signature := match cutLast? ['\x7b'] header with
    | some (s, _) => s
    | none => header
  let rest := match receiver.matchStart? signature with
    | some m => m.rest
    | none => signature
  match Header.bracketed? rest with
  | none => ([], none)
  | some (params, after) => (params, (after.map strip).filter fun r => !r.isEmpty)

/-- Whether a name is exported. -/
def isExported (name : Text) : Bool := name.head?.any isUpper

/-- Records a function or method. A method belongs to the struct of its receiver. -/
def declareFunction (lines : List Text) (line : Nat) (m : Match) (scan : FileScan) : FileScan :=
  let name := m.get .name
  let (params, result) := paramsAndResult (Header.joined .cLike lines)
  let shown := String.ofList name ++ "(" ++ String.ofList (strip params) ++ ")"
  let fill (d : Declaration) : Declaration :=
    { d with
      exported := isExported name
      parameterCount := some (Header.countParameters params)
      returnType := (result.filter fun r => decide (r.length ≤ 100)).map String.ofList }
  match m.get? .receiver with
  | some r =>
    let owner := String.ofList r
    let (scan, d) := scan.declare (fill (scan.draft .method (String.ofList name) line (some ("func (" ++ owner ++ ") " ++ shown))))
    (scan.modify d.id fun d => { d with parent := some owner }).link d.id (scan.localId .struct owner) .memberOf
  | none => (scan.declare (fill (scan.draft .function (String.ofList name) line (some ("func " ++ shown))))).1

/-- Records a type. -/
def declareType (l : Text) (line : Nat) (m : Match) (scan : FileScan) : FileScan :=
  let name := m.get .name
  let shape := m.get .shape
  let kind : EntityKind :=
    if shape = "struct".toList then .struct else if shape = "interface".toList then .interface else .type
  let block : Block := if kind = .type ∧ !l.contains '\x7b' then .line else .brace
  (scan.declare { scan.draft kind (String.ofList name) line with block, exported := isExported name }).1

/-- Reads the line at the head of the lines. -/
def visit (lines : List Text) (line : Nat) (scan : FileScan) : FileScan :=
  let l := lines.headD []
  match funcHeader.matchStart? l with
  | some m => declareFunction lines line m scan
  | none =>
    match typeHeader.matchStart? l with
    | some m => declareType l line m scan
    | none => scan

/-- Reads the lines from number `line` on. -/
def walk : (line : Nat) → List Text → FileScan → FileScan
  | _, [], scan => scan
  | line, l :: ls, scan => walk (line + 1) ls (visit (l :: ls) line scan)

/-- The declarations, imports and calls of a file. -/
def read (file : SourceFile) : Fragment :=
  let scan := FileScan.start file .cLike
  let edges := importEdges file.repoId file.path file.language (resolve file.known) (importStatements scan.lines)
  (walk 1 scan.lines scan).finish decision .cLike edges

end CodeAtlas.Go
