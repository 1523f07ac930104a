import CodeAtlas.Language.Ruby.Imports
import CodeAtlas.Source.Scan

/-!
# Declarations of Ruby

Classes, modules and methods are scoped by their `end` keywords. A visibility word on a line of its own holds for the rest of the
scope it stands in.
-/

namespace CodeAtlas.Ruby

open Text Pattern

/-- The places where a body makes a decision. -/
def decision : Pattern :=
  (edge ++ oneOfWords ["if", "elsif", "unless", "for", "while", "until", "when", "rescue"] ++ edge) <|> lit "&&" <|> lit "||"

/-- The name of a constant. -/
def constant : Pattern := one Char.isUpper ++ any0 isWordChar

/-- The name of a constant with the modules it lies in. -/
def qualified : Pattern := .part .name (star (constant ++ "::") false ++ constant)

/-- A class with the class it extends. -/
def classHeader : Pattern :=
  start ++ blanks ++ "class" ++ gap ++ qualified ++
    opt (blanks ++ "<" ++ blanks ++ .part .bases (opt "::" ++ one Char.isUpper ++ any0 (wordOr ":")))

/-- A module. -/
def moduleHeader : Pattern := start ++ blanks ++ "module" ++ gap ++ qualified

/-- The words for visibility. -/
def visibilityWord : Pattern := .part .visibility (oneOfWords ["private", "protected", "public"])

/-- The name of a method: a word, an index or an operator. -/
def methodName : Pattern :=
  (identifier ++ opt (one (among "?!="))) <|> ("[]" ++ opt "=") <|> some1 (among "+-*/<=>!~%&|^")

/-- A method with its parameters, in brackets or without. -/
def defHeader : Pattern :=
  start ++ blanks ++ opt (visibilityWord ++ gap) ++ "def" ++ gap ++ opt (.part .singleton "self.") ++ .part .name methodName ++ blanks ++
    opt (.part .params (("(" ++ .part .paramList (any0 (except ")")) ++ ")") <|> any0 (except "=\n;")))

/-- A visibility word on a line of its own. -/
def visibilityLine : Pattern := start ++ blanks ++ visibilityWord ++ blanks ++ ending

/-- A scope under way: its declaration, if it has one, how many blocks are open around it, and the visibility of what follows. -/
structure BlockScope where
  decl : Option Declaration
  depth : Int
  visibility : Text := "public".toList

/-- The scan of a file, the scopes around the current line, the innermost first, and how many blocks are open. -/
structure State where
  scan : FileScan
  scopes : List BlockScope := []
  depth : Int := 0

/-- The declaration that methods on the current line belong to. -/
def State.owner (s : State) : Option Declaration := s.scopes.head?.bind BlockScope.decl

/-- Enters a scope. -/
def State.push (s : State) (decl : Option Declaration) : State := { s with scopes := { decl, depth := s.depth } :: s.scopes }

/-- Sets the visibility of what follows in the innermost scope. -/
def State.setVisibility (s : State) (visibility : Text) : State :=
  match s.scopes with
  | [] => s
  | top :: below => { s with scopes := { top with visibility } :: below }

/-- The last segment of a qualified name. -/
def lastSegment (name : Text) : String := String.ofList (afterLast name "::")

/-- A class or module of the given name, which is always exported. -/
def typeDraft (s : State) (kind : EntityKind) (m : Match) (line : Nat) : Declaration :=
  { s.scan.draft kind (lastSegment (m.get .name)) line with block := .endKeyword, exported := true }

/-- Records a class, what it extends, and the class or module it lies in. -/
def declareClass (m : Match) (line : Nat) (s : State) : State :=
  let (scan, d) := s.scan.declare (typeDraft s .class_ m line)
  let scan := match s.owner with
    | some o => scan.memberOf d o
    | none => scan
  let scan := if m.has .bases then scan.link d.id (scan.localId .class_ (lastSegment (m.get .bases))) .extending else scan
  { s with scan }.push (some d)

/-- Records a method, or a function outside all classes and modules. -/
def declareMethod (m : Match) (line : Nat) (s : State) : State :=
  let name := String.ofList (m.get .name)
  let params := strip (Noise.hash.strip ((m.get? .paramList).getD (m.get .params)))
  let visibility := (m.get? .visibility).getD ((s.scopes.head?.map BlockScope.visibility).getD "public".toList)
  let shown := name ++ "(" ++ String.ofList params ++ ")"
  let fill (d : Declaration) : Declaration :=
    { d with
      block := .endKeyword
      exported := visibility == "public".toList
      parameterCount := some (Header.countParameters params) }
  match s.owner with
  | some o =>
    let signature := o.name ++ (if m.has .singleton then "." else "#") ++ shown
    let (scan, d) := s.scan.declare (fill (s.scan.draft .method name line (some signature)))
    { s with scan := scan.memberOf d o }
  | none => { s with scan := (s.scan.declare (fill (s.scan.draft .function name line (some ("def " ++ shown))))).1 }

/-- Reads a line with code. -/
def visit (l : Text) (line : Nat) (s : State) : State :=
  match visibilityLine.matchStart? l with
  | some m => s.setVisibility (m.get .visibility)
  | none =>
  match classHeader.matchStart? l with
  | some m => declareClass m line s
  | none =>
  match moduleHeader.matchStart? l with
  | some m =>
    let (scan, d) := s.scan.declare (typeDraft s .module_ m line)
    { s with scan }.push (some d)
  | none =>
  if startsWith (strip l) "class << self" then s.push s.owner
  else match defHeader.matchStart? l with
    | some m => declareMethod m line s
    | none => s

/-- Counts the blocks that a line opens and closes, and leaves the scopes it ends. -/
def State.advance (s : State) (l : Text) : State :=
  let depth := s.depth + Block.EndKeyword.delta l
  { s with depth, scopes := s.scopes.dropWhile fun scope => decide (depth ≤ scope.depth) }

/-- Reads the lines from number `line` on. -/
def walk : (line : Nat) → List Text → State → State
  | _, [], s => s
  | line, l :: ls, s =>
    let t := strip l
    let s := if t.isEmpty || startsWith t "#" then s else visit l line s
    walk (line + 1) ls (s.advance l)

/-- The declarations, imports and calls of a file. -/
def read (file : SourceFile) : Fragment :=
  let scan := FileScan.start file .hash
  let edges := importEdges file.repoId file.path file.language (resolve file.known file.path) (importStatements scan.lines)
  (walk 1 scan.lines { scan }).scan.finish decision (.above ["#"] false) edges

end CodeAtlas.Ruby
