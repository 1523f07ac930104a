import CodeAtlas.Language.CSharp.Imports
import CodeAtlas.Source.Walk

/-!
# Declarations of C#

Namespaces and types are recognised by their headers, methods and constructors directly inside a type.
-/

namespace CodeAtlas.CSharp

open Text Pattern

/-- The places where a body makes a decision. -/
def decision : Pattern :=
  (edge ++ anyOf ["if", "else" ++ gap ++ "if", "for", "foreach", "while", "do", "case", "catch", "switch"] ++ edge) <|>
    lit "&&" <|> lit "||" <|> lit "??" <|> lit "?"

/-- The words in front of a declaration. -/
def modifiers : Pattern :=
  .part .modifiers (star (oneOfWords
    ["public", "private", "protected", "internal", "static", "sealed", "abstract", "partial", "virtual", "override", "async",
      "readonly", "unsafe", "extern", "new", "file", "required"] ++ gap) false)

/-- A class, interface, struct, enumeration or record with its bases. -/
def typeHeader : Pattern :=
  start ++ modifiers ++
    .part .keyword (anyOf ["class", "interface", "struct", "enum", "record" ++ opt (gap ++ oneOfWords ["class", "struct"])]) ++ gap ++
    .part .name identifier ++ opt (blanks ++ "<" ++ any0 (except ">") ++ ">") ++ opt (blanks ++ "(" ++ any0 (except ")") ++ ")") ++
    opt (blanks ++ ":" ++ blanks ++ .part .bases (few1 (except "\x7b"))) ++ blanks ++
    opt ("where" ++ edge ++ any0 (except "\x7b")) ++ (lit "\x7b" <|> lit ";" <|> ending)

/-- A parameter list that may go on beyond the header. -/
def paramList : Pattern := "(" ++ .part .params (any0 (except ")")) ++ opt ")"

/-- A method with its result type. -/
def methodHeader : Pattern :=
  start ++ modifiers ++
    .part .returnType (some1 (wordOr ".") ++ opt (blanks ++ "<" ++ any0 (except "()") ++ ">") ++ star "[]" false ++ opt "?") ++
    gap ++ .part .name identifier ++ blanks ++ opt ("<" ++ any0 (except ">(") ++ ">") ++ blanks ++ paramList

/-- A constructor. -/
def constructorHeader : Pattern := start ++ modifiers ++ .part .name identifier ++ blanks ++ paramList

/-- Attributes in front of a declaration. -/
def attributes : Pattern := start ++ plus ("[" ++ any0 (except "]") ++ "]" ++ blanks)

/-- A name that by custom belongs to an interface. -/
def interfaceName : Pattern := start ++ "I" ++ one Char.isUpper

/-- Type arguments without nested ones. -/
def typeArguments : Pattern := "<" ++ any0 (except "<>") ++ ">"

/-- Words that are no result type. -/
def notTypes : List String :=
  ["return", "new", "await", "throw", "else", "public", "private", "protected", "internal", "static", "async", "override", "virtual",
    "abstract", "sealed"]

/-- The simple names of the types in a clause. -/
def typeNames (clause : Text) : List String :=
  if clause.isEmpty then []
  else
    (((splitOn ',' (typeArguments.replaceAll "" clause)).map fun p => afterLast (strip p) ".").filter identifier.isWhole).map
      String.ofList

/-- Links a type to its bases. The first base of a class is a class unless its name is an interface's; the bases of an interface are
interfaces it extends; all others are interfaces that are implemented, except for enumerations, which have none. -/
def linkBases (d : Declaration) (kind : EntityKind) (names : List String) (w : Walk Unit) : Walk Unit :=
  (names.zipIdx).foldl (fun w p =>
    if kind = .class_ ∧ p.2 = 0 ∧ (interfaceName.matchStart? p.1.text).isNone then
      w.link d.id (w.scan.localId .class_ p.1) .extending
    else if kind = .interface then w.link d.id (w.scan.localId .interface p.1) .extending
    else if kind = .enum then w
    else w.link d.id (w.scan.localId .interface p.1) .implementing) w

/-- The kind of a type by its keyword; every record is a class. -/
def typeKind (keyword : Text) : EntityKind :=
  if keyword = "interface".toList then .interface
  else if keyword = "enum".toList then .enum
  else if keyword = "struct".toList then .struct
  else .class_

/-- The type that the current line stands directly in. -/
def ownerType? (w : Walk Unit) : Option Declaration := w.owner.filter fun o => o.kind != .namespace_

/-- Records a type. -/
def declareType (m : Match) (line : Nat) (w : Walk Unit) : Walk Unit :=
  let owner := ownerType? w
  let kind := typeKind (m.get .keyword)
  let exported := (words (m.get .modifiers)).contains "public".toList && owner.all (·.exported)
  let (w, d) := w.declare { w.scan.draft kind (String.ofList (m.get .name)) line with exported }
  let w := match owner with
    | some o => w.memberOf d o
    | none => w
  let w := linkBases d kind (typeNames (m.get .bases)) w
  if kind = .enum then w else w.push d

/-- Records a namespace. One for the whole file ends with it and is no scope. -/
def declareNamespace (m : Match) (line : Nat) (w : Walk Unit) : Walk Unit :=
  let (w, d) := w.declare { w.scan.draft .namespace_ (String.ofList (m.get .name)) line with exported := true }
  if m.get .terminator = [';'] then
    { w with scan := w.scan.modify d.id fun d => { d with endLine := some w.scan.lines.length } }
  else w.push d

/-- The method or constructor that a header declares. A constructor bears the name of its type and has no result type. -/
def memberMatch? (owner : Declaration) (header : Text) : Option (Match × Option String) :=
  match (constructorHeader.matchStart? header).filter fun m => String.ofList (m.get .name) == owner.name with
  | some m => some (m, none)
  | none =>
    (methodHeader.matchStart? header).bind fun m =>
      let result := String.ofList (m.get .returnType)
      if Header.controlWords.contains (String.ofList (m.get .name)) || notTypes.contains result then none
      else some (m, some result)

/-- Records the method or constructor that a header declares. -/
def member (owner : Declaration) (header : Text) (line : Nat) (w : Walk Unit) : Walk Unit :=
  match memberMatch? owner header with
  | none => w
  | some (m, returnType) =>
    let name := String.ofList (m.get .name)
    let modifiers := words (m.get .modifiers)
    let isPublic := modifiers.contains "public".toList || (owner.kind == .interface && !modifiers.contains "private".toList)
    let signature := owner.name ++ "." ++ name ++ "(" ++ String.ofList (squeeze (m.get .params)) ++ ")"
    let (w, d) := w.declare
      { w.scan.draft .method name line (some signature) with
        exported := owner.exported && isPublic
        isAsync := modifiers.contains "async".toList
        parameterCount := some (Header.countParameters (m.get .params))
        returnType }
    w.memberOf d owner

/-- Reads a header. -/
def visit (header : Text) (line : Nat) (w : Walk Unit) : Walk Unit :=
  let header := attributes.replaceAll "" header
  if header.isEmpty then w
  else match if (ownerType? w).isNone then namespaceHeader.matchStart? header else none with
  | some m => declareNamespace m line w
  | none =>
  match typeHeader.matchStart? header, ownerType? w with
  | some m, _ => declareType m line w
  | none, some owner => member owner header line w
  | none, none => w

/-- Comments of three or two slashes and block comments. -/
def docStyle : DocStyle := .above ["///", "//"] true

/-- The declarations, imports and calls of a file. -/
def read (file : SourceFile) : Fragment :=
  let scan := FileScan.start file .cLike
  let edges := importEdges file.repoId file.path file.language (resolve file.known (ownNamespace? scan.lines))
    (importStatements scan.lines)
  (Walk.run true visit scan ()).scan.finish decision docStyle edges

end CodeAtlas.CSharp
