import CodeAtlas.Language.TypeScript.Imports
import CodeAtlas.Source.Walk

/-!
# Declarations of TypeScript and JavaScript

Functions, arrow functions bound to constants, classes, interfaces, type aliases, enumerations and class members are recognised by
the headers on their lines. A line directly inside the body of a class or interface is read as a member.
-/

namespace CodeAtlas.TypeScript

open Text Pattern

/-- The places where a body makes a decision. -/
def decision : Pattern :=
  (edge ++ anyOf ["if", "else" ++ gap ++ "if", "for", "while", "case", "catch"] ++ edge) <|>
    ("?" ++ blanks ++ one fun c => !(among ":?." c || isBlank c)) <|> lit "&&" <|> lit "||"

/-- `export` in front of a declaration. -/
def exportMark : Pattern := opt (.part .exported ("export" ++ gap))

/-- A word that may stand in front of a declaration. -/
def mark (w : String) : Pattern := opt (w ++ gap)

/-- A list of parameters between round brackets, without nested ones. -/
def paramList : Pattern := "(" ++ .part .params (any0 (except ")")) ++ ")"

/-- A type after a colon, up to an equals sign. -/
def typeAnnotation : Pattern := opt (":" ++ some1 (except "="))

/-- Type parameters in front of a body. -/
def typeParameters : Pattern := "<" ++ few0 (except "\x7b") ++ ">"

/-- A function. -/
def functionHeader : Pattern :=
  start ++ exportMark ++ mark "default" ++ mark "declare" ++ opt (.part .async ("async" ++ gap)) ++ "function" ++ blanks ++
    opt "*" ++ blanks ++ .part .name name ++ blanks ++ opt ("<" ++ any0 (except ">") ++ ">") ++ blanks ++ paramList

/-- A function bound to a constant or variable. -/
def arrowHeader : Pattern :=
  start ++ exportMark ++ oneOfWords ["const", "let", "var"] ++ gap ++ .part .name name ++ blanks ++ typeAnnotation ++ "=" ++
    blanks ++ opt (.part .async ("async" ++ gap)) ++
    (("function" ++ edge ++ any0 (except "(") ++ paramList) <|>
      (paramList ++ blanks ++ typeAnnotation ++ "=>") <|>
      (.part .params name ++ blanks ++ "=>"))

/-- A class with what it extends and implements. -/
def classHeader : Pattern :=
  start ++ exportMark ++ mark "default" ++ mark "declare" ++ mark "abstract" ++ "class" ++ gap ++ .part .name name ++
    opt (blanks ++ typeParameters) ++
    opt (gap ++ "extends" ++ gap ++ .part .bases (some1 (wordOr "$.")) ++ opt (blanks ++ typeParameters)) ++
    opt (gap ++ "implements" ++ gap ++ .part .interfaces (some1 (except "\x7b")))

/-- An interface with what it extends. -/
def interfaceHeader : Pattern :=
  start ++ exportMark ++ mark "declare" ++ "interface" ++ gap ++ .part .name name ++ opt (blanks ++ typeParameters) ++
    opt (gap ++ "extends" ++ gap ++ .part .bases (some1 (except "\x7b")))

/-- A type alias. -/
def typeHeader : Pattern :=
  start ++ exportMark ++ mark "declare" ++ "type" ++ gap ++ .part .name name ++ blanks ++
    opt ("<" ++ any0 (except "=") ++ ">") ++ blanks ++ "="

/-- An enumeration. -/
def enumHeader : Pattern := start ++ exportMark ++ mark "declare" ++ mark "const" ++ "enum" ++ gap ++ .part .name name

/-- The words in front of a member. -/
def memberModifiers : Pattern :=
  .part .modifiers (star (oneOfWords
    ["public", "private", "protected", "static", "readonly", "override", "abstract", "async", "declare", "get", "set"] ++ gap) false)

/-- The name of a member; a hash sign makes it private. -/
def memberName : Pattern := opt "#" ++ name

/-- A method. -/
def methodHeader : Pattern :=
  start ++ memberModifiers ++ opt ("*" ++ blanks) ++ .part .name memberName ++ blanks ++ opt "?" ++ blanks ++
    opt ("<" ++ any0 (except ">(") ++ ">") ++ blanks ++ paramList

/-- An arrow function bound to a property. -/
def propertyHeader : Pattern :=
  start ++ memberModifiers ++ .part .name memberName ++ blanks ++ typeAnnotation ++ "=" ++ blanks ++
    opt (.part .async ("async" ++ gap)) ++ paramList ++ blanks ++ typeAnnotation ++ "=>"

/-- The type after a parameter list. -/
def returnClause : Pattern :=
  ")" ++ blanks ++ ":" ++ blanks ++ .part .returnType (few1 (except "\x7b=;")) ++ blanks ++
    (lit "\x7b" <|> lit "=>" <|> lit ";" <|> ending)

/-- The return type in a header, unless it is very long. -/
def returnType (header : Text) : Option String :=
  (returnClause.search? header).bind fun m =>
    let t := strip (m.get .returnType)
    if t.isEmpty || decide (100 < t.length) then none else some (String.ofList t)

/-! ## Names exported elsewhere in the file -/

/-- `export { … }`. -/
def exportList : Pattern :=
  indentation ++ "export" ++ blanks ++ "\x7b" ++ .part .items (any0 (except "\x7d")) ++ "\x7d" ++ blanks ++ opt ";" ++ blanks ++ lineEnd

/-- `export default …`. -/
def exportDefault : Pattern :=
  indentation ++ "export" ++ gap ++ "default" ++ gap ++ .part .name name ++ blanks ++ opt ";" ++ blanks ++ lineEnd

/-- `module.exports = { … }`. -/
def moduleObject : Pattern :=
  edge ++ "module.exports" ++ blanks ++ "=" ++ blanks ++ "\x7b" ++ .part .items (any0 (except "\x7d")) ++ "\x7d"

/-- `module.exports = …`. -/
def moduleName : Pattern :=
  edge ++ "module.exports" ++ blanks ++ "=" ++ blanks ++ .part .name name ++ blanks ++ opt ";" ++ blanks ++ lineEnd

/-- `exports.… =`. -/
def exportsMember : Pattern := edge ++ opt "module." ++ "exports." ++ .part .name name ++ blanks ++ "="

/-- The names of an exported object: the value of a property, which is also its name when it stands alone. -/
def objectNames (items : Text) : List String :=
  (((splitOn ',' items).map fun p => strip (afterLast p ":")).filter name.isWhole).map String.ofList

/-- The names that are exported apart from their declarations. -/
def exportedNames (content : Text) : List String :=
  (exportList.findAll content).flatMap (fun m => ImportStatement.symbolList (m.get .items)) ++
  (moduleObject.findAll content).flatMap (fun m => objectNames (m.get .items)) ++
  [exportDefault, moduleName, exportsMember].flatMap fun p => (p.findAll content).map fun m => String.ofList (m.get .name)

/-! ## The walk -/

/-- What is known before the walk begins. -/
structure Names where
  imported : List (String × String)
  exported : List String

/-- The id that a type name stands for: the declaration in the file it was imported from, or one in this file. -/
def typeId? (names : Names) (scan : FileScan) (kind : EntityKind) (raw : Text) : Option String :=
  let t := strip (raw.before "<")
  if t.isEmpty || t.has "." then none
  else
    let n := String.ofList t
    some (match fileOfSymbol? names.imported n with
      | some path => scan.idIn path kind n
      | none => scan.localId kind n)

/-- The ids of the type names between commas. -/
def typeIds (names : Names) (scan : FileScan) (kind : EntityKind) (raw : Text) : List String :=
  (splitOn ',' raw).filterMap (typeId? names scan kind)

/-- Whether a declaration is exported, by its header or by name. -/
def isExported (names : Names) (m : Match) : Bool := m.has .exported || names.exported.contains (String.ofList (m.get .name))

/-- A function declared by a match. -/
def functionOf (names : Names) (scan : FileScan) (header : Text) (line : Nat) (signature : String) (block : Block) (m : Match) :
    Declaration :=
  { scan.draft .function (String.ofList (m.get .name)) line (some signature) with
    block
    exported := isExported names m
    isAsync := m.has .async
    parameterCount := some (Header.countParameters (m.get .params))
    returnType := returnType header }

/-- Reads a header that is not directly inside a type. -/
def topLevel (names : Names) (header : Text) (line : Nat) (w : Walk Unit) : Walk Unit :=
  let scan := w.scan
  let draft (kind : EntityKind) (m : Match) : Declaration :=
    { scan.draft kind (String.ofList (m.get .name)) line with exported := isExported names m }
  let atModuleLevel := w.scopes.depth = 0
  match functionHeader.matchStart? header with
  | some m =>
    let signature := "function " ++ String.ofList (m.get .name) ++ "(" ++ String.ofList (strip (m.get .params)) ++ ")"
    (w.declare (functionOf names scan header line signature .brace m)).1
  | none =>
  match classHeader.matchStart? header with
  | some m =>
    let (w, d) := w.declare (draft .class_ m)
    let w := if m.has .bases then w.linkAll d.id (typeId? names scan .class_ (m.get .bases)).toList .extending else w
    (w.linkAll d.id (typeIds names scan .interface (m.get .interfaces)) .implementing).push d
  | none =>
  match interfaceHeader.matchStart? header with
  | some m =>
    let (w, d) := w.declare (draft .interface m)
    (w.linkAll d.id (typeIds names scan .interface (m.get .bases)) .extending).push d
  | none =>
  match if atModuleLevel then typeHeader.matchStart? header else none with
  | some m => (w.declare { draft .type m with block := .statement }).1
  | none =>
  match enumHeader.matchStart? header with
  | some m => (w.declare (draft .enum m)).1
  | none =>
  match if atModuleLevel then arrowHeader.matchStart? header else none with
  | some m => (w.declare (functionOf names scan header line ("const " ++ String.ofList (m.get .name)) .statement m)).1
  | none => w

/-- Reads a header directly inside a type. -/
def member (owner : Declaration) (header : Text) (line : Nat) (w : Walk Unit) : Walk Unit :=
  let found := match propertyHeader.matchStart? header with
    | some m => some (m, m.has .async)
    | none => (methodHeader.matchStart? header).map fun m => (m, (words (m.get .modifiers)).contains "async".toList)
  match found with
  | none => w
  | some (m, isAsync) =>
    let n := String.ofList (m.get .name)
    if Header.controlWords.contains n then w
    else
      let isPrivate := (words (m.get .modifiers)).contains "private".toList || n.text.startsWith "#"
      let signature := owner.name ++ "." ++ n ++ "(" ++ String.ofList (strip (m.get .params)) ++ ")"
      let (w, d) := w.declare
        { w.scan.draft .method n line (some signature) with
          exported := owner.exported && !isPrivate
          isAsync
          parameterCount := some (Header.countParameters (m.get .params))
          returnType := returnType header }
      w.memberOf d owner

/-- Reads a header. -/
def visit (names : Names) (header : Text) (line : Nat) (w : Walk Unit) : Walk Unit :=
  match w.owner with
  | some owner => member owner header line w
  | none => topLevel names header line w

/-- The edges of the imports of a file. -/
def imports (file : SourceFile) : List Edge :=
  importEdges file.repoId file.path file.language (resolve file.known file.path) (importStatements file.content.text)

/-- The declarations, imports and calls of a file. -/
def read (file : SourceFile) : Fragment :=
  let edges := imports file
  let names : Names := { imported := importedSymbolFiles edges, exported := exportedNames file.content.text }
  (Walk.run false (visit names) (FileScan.start file .cLike) ()).scan.finish decision .cLike edges

end CodeAtlas.TypeScript
