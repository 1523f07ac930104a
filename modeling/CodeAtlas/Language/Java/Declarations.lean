import CodeAtlas.Language.Java.Imports
import CodeAtlas.Source.Walk

/-!
# Declarations of Java

Types are recognised wherever they stand, methods and constructors directly inside a type. Types of the same package need no import:
a sibling file of a type's name is taken for its source.
-/

namespace CodeAtlas.Java

open Text Pattern

/-- The places where a body makes a decision. -/
def decision : Pattern :=
  (edge ++ anyOf ["if", "else" ++ gap ++ "if", "for", "while", "do", "case", "catch", "switch"] ++ edge) <|>
    lit "&&" <|> lit "||" <|> lit "?"

/-- The words in front of a declaration. -/
def modifiers : Pattern :=
  .part .modifiers (star (oneOfWords
    ["public", "protected", "private", "static", "final", "abstract", "sealed", "non-sealed", "strictfp", "default", "synchronized",
      "native", "transient", "volatile"] ++ gap) false)

/-- A clause of type names up to a body. -/
def typeClause (keyword : String) (label : Part) : Pattern :=
  opt (gap ++ keyword ++ gap ++ .part label (few1 (except "\x7b")))

/-- A class, interface, enumeration, record or annotation type. -/
def typeHeader : Pattern :=
  start ++ modifiers ++ .part .keyword (oneOfWords ["class", "interface", "enum", "record", "@interface"]) ++ gap ++
    .part .name identifier ++ opt (blanks ++ "<" ++ few0 (except "\x7b") ++ ">") ++ opt (blanks ++ "(" ++ any0 (except ")") ++ ")") ++
    typeClause "extends" .bases ++ typeClause "implements" .interfaces ++ opt (gap ++ "permits" ++ gap ++ few1 (except "\x7b")) ++
    blanks ++ (lit "\x7b" <|> ending)

/-- A parameter list that may go on beyond the header. -/
def paramList : Pattern := "(" ++ .part .params (any0 (except ")")) ++ opt ")"

/-- A method with its result type. -/
def methodHeader : Pattern :=
  start ++ modifiers ++ opt ("<" ++ some1 (except ">") ++ ">" ++ gap) ++
    .part .returnType (some1 (wordOr ".$") ++ opt (blanks ++ "<" ++ any0 (except "()") ++ ">") ++
      star (blanks ++ "[" ++ blanks ++ "]") false) ++
    gap ++ .part .name identifier ++ blanks ++ paramList

/-- A constructor. -/
def constructorHeader : Pattern := start ++ modifiers ++ .part .name identifier ++ blanks ++ paramList

/-- A type name, qualified or not. -/
def typeName : Pattern := one Text.isNameStart ++ any0 (wordOr ".")

/-- Annotations in front of a declaration. -/
def annotations : Pattern :=
  start ++ plus ("@" ++ some1 (wordOr ".") ++ opt ("(" ++ any0 (except ")") ++ ")") ++ blanks)

/-- Words that are no result type. -/
def notTypes : List String :=
  ["new", "return", "throw", "else", "public", "protected", "private", "static", "final", "abstract", "synchronized"]

/-- The kind of a type by its keyword. -/
def typeKind (keyword : Text) : EntityKind :=
  if keyword = "interface".toList ∨ keyword = "@interface".toList then .interface
  else if keyword = "enum".toList then .enum
  else .class_

/-- The pieces between the commas outside angle brackets, without what stands in such brackets. -/
def outsideAngles : (depth : Int) → Text → List Text
  | _, [] => [[]]
  | depth, c :: r =>
    if c = '<' then outsideAngles (depth + 1) r
    else if c = '>' then outsideAngles (depth - 1) r
    else if depth ≠ 0 then outsideAngles depth r
    else if c = ',' then [] :: outsideAngles depth r
    else consHead c (outsideAngles depth r)

/-- The simple names of the types in a clause. -/
def typeNames (clause : Text) : List String :=
  if clause.isEmpty then []
  else
    (((outsideAngles 0 clause).map strip).filter typeName.isWhole).map fun n => String.ofList (afterLast n ".")

/-- The id that a type name stands for: a type of the file it was imported from, of a sibling file, or of this file. -/
def typeId (imported : List (String × String)) (scan : FileScan) (kind : EntityKind) (name : String) : String :=
  let sibling := Path.join (Path.dirname scan.file.path) (name ++ ".java")
  match fileOfSymbol? imported name with
  | some path => scan.idIn path kind name
  | none =>
    if scan.file.known.hasFile sibling && sibling != scan.file.path then scan.idIn sibling kind name
    else scan.localId kind name

/-- Records the type that a match declares. -/
def declareType (imported : List (String × String)) (m : Match) (line : Nat) (w : Walk Unit) : Walk Unit :=
  let owner := w.owner
  let kind := typeKind (m.get .keyword)
  let exported := (words (m.get .modifiers)).contains "public".toList ||
    owner.any fun o => o.kind == .interface && o.exported
  let ids (kind : EntityKind) (clause : Text) : List String := (typeNames clause).map (typeId imported w.scan kind)
  let (w, d) := w.declare { w.scan.draft kind (String.ofList (m.get .name)) line with exported }
  let w := match owner with
    | some o => w.memberOf d o
    | none => w
  let extended : EntityKind := if kind = .interface then .interface else .class_
  ((w.linkAll d.id (ids extended (m.get .bases)) .extending).linkAll d.id (ids .interface (m.get .interfaces)) .implementing).push d

/-- The method or constructor that a header declares. A constructor bears the name of its type and has no result type. -/
def memberMatch? (owner : Declaration) (header : Text) : Option (Match × Option String) :=
  match (constructorHeader.matchStart? header).filter fun m => String.ofList (m.get .name) == owner.name with
  | some m => some (m, none)
  | none =>
    (methodHeader.matchStart? header).bind fun m =>
      let result := String.ofList (m.get .returnType)
      if Header.controlWords.contains (String.ofList (m.get .name)) || notTypes.contains result then none
      else some (m, some result)

/-- Records the method or constructor that a header declares. -/
def member (owner : Declaration) (header : Text) (line : Nat) (w : Walk Unit) : Walk Unit :=
  match memberMatch? owner header with
  | none => w
  | some (m, returnType) =>
    let name := String.ofList (m.get .name)
    let modifiers := words (m.get .modifiers)
    let isPublic := modifiers.contains "public".toList ||
      (owner.kind == .interface && !modifiers.contains "private".toList)
    let signature := owner.name ++ "." ++ name ++ "(" ++ String.ofList (squeeze (m.get .params)) ++ ")"
    let (w, d) := w.declare
      { w.scan.draft .method name line (some signature) with
        exported := owner.exported && isPublic
        parameterCount := some (Header.countParameters (m.get .params))
        returnType }
    w.memberOf d owner

/-- Reads a header. -/
def visit (imported : List (String × String)) (header : Text) (line : Nat) (w : Walk Unit) : Walk Unit :=
  let header := annotations.replaceAll "" header
  match typeHeader.matchStart? header, w.owner with
  | some m, _ => declareType imported m line w
  | none, some owner => member owner header line w
  | none, none => w

/-- The declarations, imports and calls of a file. -/
def read (file : SourceFile) : Fragment :=
  let scan := FileScan.start file .cLike
  let edges := importEdges file.repoId file.path file.language (resolve file.known) (importStatements scan.lines)
  (Walk.run false (visit (importedSymbolFiles edges)) scan ()).scan.finish decision .cLike edges

end CodeAtlas.Java
