import CodeAtlas.Language.CFamily.Imports
import CodeAtlas.Source.Walk

/-!
# Declarations of C and C++

At file and namespace scope only definitions of functions count, in a class body declarations too. A method defined outside its class
is attached to the class after the walk, when the file declares it.
-/

namespace CodeAtlas.CFamily

open Text Pattern

/-- The places where a body makes a decision, in C and with exceptions in C++. -/
def decisionAmong (keywords : List String) : Pattern :=
  (edge ++ anyOf (lit "if" :: ("else" ++ gap ++ "if") :: keywords.map lit) ++ edge) <|> lit "&&" <|> lit "||" <|> lit "?"

/-- The places where the body of a C function makes a decision. -/
def decisionC : Pattern := decisionAmong ["for", "while", "do", "case", "switch"]

/-- The places where the body of a C++ function makes a decision. -/
def decisionCpp : Pattern := decisionAmong ["for", "while", "do", "case", "catch", "switch"]

/-- The parameters of a template. -/
def template : Pattern := "template" ++ blanks ++ "<" ++ any0 (except ">") ++ ">"

/-- The words in front of a function. -/
def specifiers : Pattern :=
  .part .modifiers (star (anyOf
    (["static", "inline", "extern", "virtual", "constexpr", "consteval", "explicit", "friend", "unsigned", "signed", "const",
      "volatile", "__inline"].map lit ++ [template]) ++ gap) false)

/-- A piece of a result type with what separates it from the next. -/
def typePiece : Pattern := some1 (wordOr ":<>,") ++ some1 fun c => isBlank c || among "*&" c

/-- The name of a function, qualified or not, or an operator. -/
def functionName : Pattern :=
  (any0 (among "*&") ++ blanks ++ opt "~" ++ identifier ++ star ("::" ++ opt "~" ++ identifier) false) <|>
    ("operator" ++ blanks ++ few1 fun c => !isBlank c)

/-- A function up to its body, its semicolon or the end of the header. -/
def functionHeader : Pattern :=
  start ++ specifiers ++ opt (.part .returnType (typePiece ++ star typePiece true)) ++ .part .name functionName ++ blanks ++
    "(" ++ .part .params (few0 (except ";\x7b")) ++ ")" ++ blanks ++
    star (oneOfWords ["const", "noexcept", "override", "final", "volatile", "&", "&&"] ++ blanks) false ++
    opt ("->" ++ blanks ++ some1 (except "\x7b;")) ++ opt (":" ++ any0 (except ";\x7b")) ++ blanks ++
    .part .terminator (lit "\x7b" <|> lit ";" <|> ending)

/-- A struct, class, union or enumeration with its bases. -/
def typeHeader : Pattern :=
  start ++ opt ("typedef" ++ gap) ++ opt (template ++ blanks) ++
    .part .keyword (anyOf ["struct", "class", "union", "enum" ++ opt (gap ++ oneOfWords ["class", "struct"])]) ++ gap ++
    star (word ++ gap) true ++ .part .name identifier ++ blanks ++ opt ("final" ++ blanks) ++
    opt (.part .bases (":" ++ any0 (except "\x7b;"))) ++ blanks ++ (lit "\x7b" <|> ending)

/-- A namespace. -/
def namespaceHeader : Pattern :=
  start ++ opt ("inline" ++ gap) ++ "namespace" ++ gap ++ .part .name (one Text.isNameStart ++ any0 (wordOr ":"))

/-- A block of declarations with C linkage. -/
def linkageBlock : Pattern := start ++ "extern" ++ gap ++ "\"C" ++ opt "++" ++ "\"" ++ blanks ++ "\x7b"

/-- A type definition. -/
def typedefLine : Pattern :=
  start ++ "typedef" ++ gap ++ few1 (except ";\x7b") ++ edge ++ .part .name identifier ++ blanks ++ ";"

/-- A label that sets the access of the members after it. -/
def accessLabel : Pattern := start ++ .part .visibility (oneOfWords ["public", "private", "protected"]) ++ blanks ++ ":"

/-- A line that only C++ has. -/
def cppHint : Pattern :=
  lineStart ++ blanks ++ anyOf ["namespace" ++ gap ++ word, "class" ++ gap ++ word, "template" ++ blanks ++ "<"]

/-- A base class with its access. -/
def baseClause : Pattern :=
  star (anyOf [lit "public", lit "protected", lit "private", lit "virtual", one isBlank]) false ++
    .part .name (one Text.isNameStart ++ any0 (wordOr ":"))

/-- Template arguments without nested ones. -/
def templateArguments : Pattern := "<" ++ any0 (except "<>") ++ ">"

/-- The names of the base classes in a clause that begins with a colon. -/
def baseNames (clause : Text) : List String :=
  if clause.isEmpty then []
  else
    (splitOn ',' (templateArguments.replaceAll "" (trimLeft (· == ':') clause))).filterMap fun part =>
      (baseClause.matchWhole? (strip part)).map fun m => String.ofList (afterLast (m.get .name) "::")

/-- What is kept beside the scan: the current access in each class by its id, and methods by id with the class they name. -/
structure Notes where
  access : List (String × Text) := []
  qualified : List (String × String) := []

/-- Where a line stands. -/
structure Position where
  owner : Option Declaration
  depth : Int

namespace Position

/-- The class or struct that the line stands directly in. -/
def inClass? (p : Position) : Option Declaration := p.owner.filter fun o => o.kind == .class_ || o.kind == .struct

/-- Whether the line stands at file or namespace scope. -/
def atFileScope (p : Position) : Bool := p.depth == 0 || p.owner.any fun o => o.kind == .namespace_

end Position

/-- Whether what is declared next in a class can be seen from outside. -/
def isPublic (notes : Notes) (owner : Declaration) : Bool :=
  let access := ((notes.access.find? fun p => p.1 == owner.id).map (·.2)).getD "public".toList
  owner.exported && access == "public".toList

/-- Sets the access in a class. -/
def setAccess (id : String) (access : Text) (w : Walk Notes) : Walk Notes :=
  { w with notes := { w.notes with access := (id, access) :: w.notes.access } }

/-- Records a struct, class, union or enumeration. -/
def declareType (at_ : Position) (m : Match) (line : Nat) (w : Walk Notes) : Walk Notes :=
  let keyword := m.get .keyword
  let kind : EntityKind :=
    if startsWith keyword "enum" then .enum else if keyword = "class".toList then .class_ else .struct
  let exported := match at_.inClass? with
    | some o => isPublic w.notes o
    | none => true
  let (w, d) := w.declare { w.scan.draft kind (String.ofList (m.get .name)) line with exported }
  let w := match at_.inClass? with
    | some o => w.memberOf d o
    | none => w
  let w := w.linkAll d.id ((baseNames (m.get .bases)).map (w.scan.localId .class_)) .extending
  if kind = .enum then w
  else (setAccess d.id (if kind = .class_ then "private".toList else "public".toList) w).push d

/-- Whether one of the two lines after a header is the first with text and opens a brace. -/
def braceFollows (lines : List Text) (line : Nat) : Bool :=
  match (((lines.drop line).take 2).map strip).find? fun t => !t.isEmpty with
  | some t => startsWith t "\x7b"
  | none => false

/-- Records the function or method of a match. A definition of a method declared before takes the declaration's place. -/
def declareFunction (cpp : Bool) (at_ : Position) (m : Match) (line : Nat) (w : Walk Notes) : Walk Notes :=
  let name := strip (trimLeft (among "*& ") (m.get .name))
  let leaf := String.ofList (afterLast name "::")
  let result := m.get .returnType
  let terminator := m.get .terminator
  let isDefinition := terminator = ['\x7b'] ||
    (terminator.isEmpty && braceFollows w.scan.lines (Header.lastLine w.scan.noise w.scan.lines line))
  if Header.controlWords.contains leaf || ["return", "else", "new", "delete"].contains (String.ofList (strip result)) then w
  else if !isDefinition && at_.inClass?.isNone then w
  else
    let params := m.get .params
    let shown := leaf ++ "(" ++ String.ofList (squeeze params) ++ ")"
    let fill (d : Declaration) : Declaration :=
      { d with
        parameterCount := some (if ["", "void"].contains (String.ofList (strip params)) then 0 else Header.countParameters params)
        returnType := if result.isEmpty then none else some (String.ofList (squeeze result))
        block := if isDefinition then .brace else .line }
    match at_.inClass? with
    | some o =>
      let (w, d) := w.declare
        { fill (w.scan.draft .method leaf line (some (o.name ++ "::" ++ shown))) with exported := isPublic w.notes o }
      w.memberOf d o
    | none =>
      if has name "::" && cpp then
        let owner := String.ofList (afterLast (beforeLast name "::") "::")
        let (w, d) := w.declare { fill (w.scan.draft .method leaf line (some (owner ++ "::" ++ shown))) with exported := true }
        let takeOver := isDefinition && d.block == .line && d.startLine != line
        { w with
          scan := w.scan.modify d.id fun d =>
            { d with
              startLine := if takeOver then line else d.startLine
              block := if takeOver then .brace else d.block
              parent := some owner }
          notes := { w.notes with qualified := w.notes.qualified ++ [(d.id, owner)] } }
      else
        (w.declare { fill (w.scan.draft .function leaf line (some shown)) with
          exported := !(words (m.get .modifiers)).contains "static".toList }).1

/-- Reads a header without its access label. -/
def declaration (cpp : Bool) (at_ : Position) (header : Text) (line : Nat) (w : Walk Notes) : Walk Notes :=
  let inScope := at_.atFileScope || at_.inClass?.isSome
  if at_.atFileScope && (linkageBlock.matchStart? header).isSome then
    w.push { id := "", kind := .namespace_, name := "", startLine := line, exported := true }
  else match if cpp && at_.atFileScope then namespaceHeader.matchStart? header else none with
  | some m =>
    let (w, d) := w.declare { w.scan.draft .namespace_ (String.ofList (m.get .name)) line with exported := true }
    w.push d
  | none =>
  match if inScope then typeHeader.matchStart? header else none with
  | some m => declareType at_ m line w
  | none =>
  match if at_.atFileScope then typedefLine.matchStart? header else none with
  | some m => (w.declare { w.scan.draft .type (String.ofList (m.get .name)) line with block := .line, exported := true }).1
  | none =>
  match if inScope && header.contains '(' then functionHeader.matchStart? header else none with
  | some m => declareFunction cpp at_ m line w
  | none => w

/-- Reads a header. -/
def visit (cpp : Bool) (header : Text) (line : Nat) (w : Walk Notes) : Walk Notes :=
  let at_ : Position := { owner := w.owner, depth := w.scopes.depth }
  match at_.inClass?.bind fun o => (accessLabel.matchStart? header).map fun m => (o, m) with
  | some (o, m) =>
    let w := setAccess o.id (m.get .visibility) w
    let rest := strip m.rest
    if rest.isEmpty then w else declaration cpp at_ rest line w
  | none => declaration cpp at_ header line w

/-- Attaches methods defined outside their class to it; of several classes of one name to the last. -/
def attach (w : Walk Notes) : FileScan :=
  let id? (name : String) : Option String :=
    (w.scan.decls.reverse.find? fun d => (d.kind == .class_ || d.kind == .struct) && d.name == name).map (·.id)
  w.notes.qualified.foldl (fun scan p =>
    match id? p.2 with
    | some owner => scan.link p.1 owner .memberOf
    | none => scan) w.scan

/-- Whether a file is C++: by its language, or a header with a line that only C++ has. -/
def isCpp (file : SourceFile) : Bool :=
  file.language == "cpp" || (file.path.text.endsWith ".h" && cppHint.occursIn file.content.text)

/-- The declarations, includes and calls of a file. -/
def read (file : SourceFile) : Fragment :=
  let cpp := isCpp file
  let scan := FileScan.start file .cLike
  let edges := importEdges file.repoId file.path file.language (resolve file.known file.path) (importStatements scan.lines)
  (attach (Walk.run true (visit cpp) scan {})).finish (if cpp then decisionCpp else decisionC) .cLike edges

end CodeAtlas.CFamily
