import CodeAtlas.Language.Php.Imports
import CodeAtlas.Source.Walk

/-!
# Declarations of PHP

Types and functions stand outside all types, methods directly inside one. A class that uses a trait extends it.
-/

namespace CodeAtlas.Php

open Text Pattern

/-- The places where a body makes a decision. -/
def decision : Pattern :=
  (edge ++ oneOfWords ["if", "elseif", "for", "foreach", "while", "do", "case", "catch", "switch", "match"] ++ edge) <|>
    lit "&&" <|> lit "||" <|> lit "??" <|> lit "?"

/-- The words of a list, each with blanks after it, in front of a declaration. -/
def modifiersAmong (ws : List String) : Pattern := .part .modifiers (star (oneOfWords ws ++ gap) false)

/-- A clause of type names. -/
def typeClause (keyword : String) (label : Part) : Pattern :=
  opt (gap ++ keyword ++ gap ++ .part label (few1 fun c => wordOr "\\," c || isBlank c))

/-- A class, interface, trait or enumeration. -/
def typeHeader : Pattern :=
  start ++ modifiersAmong ["abstract", "final", "readonly"] ++ .part .keyword (oneOfWords ["class", "interface", "trait", "enum"]) ++
    gap ++ .part .name identifier ++ opt (blanks ++ ":" ++ blanks ++ word) ++ typeClause "extends" .bases ++
    typeClause "implements" .interfaces ++ blanks ++ (lit "\x7b" <|> ending)

/-- The name and parameters of a function, the list possibly going on beyond the header. -/
def functionTail : Pattern :=
  "function" ++ gap ++ opt "&" ++ blanks ++ .part .name identifier ++ blanks ++ "(" ++ .part .params (any0 (except ")")) ++ opt ")"

/-- A function. -/
def functionHeader : Pattern := start ++ functionTail

/-- A method. -/
def methodHeader : Pattern :=
  start ++ modifiersAmong ["public", "protected", "private", "static", "abstract", "final", "readonly"] ++ functionTail

/-- The type after a parameter list. -/
def returnClause : Pattern := ")" ++ blanks ++ ":" ++ blanks ++ .part .returnType (opt "?" ++ some1 (wordOr "\\|"))

/-- Attributes in front of a declaration. -/
def attributes : Pattern := start ++ plus ("#[" ++ any0 (except "]") ++ "]" ++ blanks)

/-- The return type in a header. -/
def returnType (header : Text) : Option String :=
  (returnClause.search? header).map fun m => String.ofList (m.get .returnType)

/-- The kind of a type by its keyword; a trait counts as a class. -/
def typeKind (keyword : Text) : EntityKind :=
  if keyword = "interface".toList then .interface else if keyword = "enum".toList then .enum else .class_

/-- The id that a type name stands for: a type of the file it was imported from, of a sibling file, or of this file. -/
def typeId? (imported : List (String × String)) (scan : FileScan) (kind : EntityKind) (raw : Text) : Option String :=
  let t := afterLast (bare (strip raw)) "\\"
  if !identifier.isWhole t then none
  else
    let name := String.ofList t
    let sibling := Path.join (Path.dirname scan.file.path) (name ++ ".php")
    match fileOfSymbol? imported name with
    | some path => some (scan.idIn path kind name)
    | none =>
      if scan.file.known.hasFile sibling && sibling != scan.file.path then some (scan.idIn sibling kind name)
      else some (scan.localId kind name)

/-- The ids of the type names between commas. -/
def typeIds (imported : List (String × String)) (scan : FileScan) (kind : EntityKind) (clause : Text) : List String :=
  (splitOn ',' clause).filterMap (typeId? imported scan kind)

/-- Records a type. -/
def declareType (imported : List (String × String)) (m : Match) (line : Nat) (w : Walk Unit) : Walk Unit :=
  let kind := typeKind (m.get .keyword)
  let scan := w.scan
  let (w, d) := w.declare { scan.draft kind (String.ofList (m.get .name)) line with exported := true }
  let extended : EntityKind := if kind = .interface then .interface else .class_
  ((w.linkAll d.id (typeIds imported scan extended (m.get .bases)) .extending).linkAll d.id
    (typeIds imported scan .interface (m.get .interfaces)) .implementing).push d

/-- Reads a header outside all types. -/
def topLevel (imported : List (String × String)) (header : Text) (line : Nat) (w : Walk Unit) : Walk Unit :=
  match typeHeader.matchStart? header with
  | some m => declareType imported m line w
  | none =>
    match if w.scopes.depth = 0 then functionHeader.matchStart? header else none with
    | some m =>
      let name := String.ofList (m.get .name)
      (w.declare
        { w.scan.draft .function name line (some ("function " ++ name ++ "(" ++ String.ofList (squeeze (m.get .params)) ++ ")")) with
          exported := true
          parameterCount := some (Header.countParameters (m.get .params))
          returnType := returnType header }).1
    | none => w

/-- The traits that a class uses on a line. -/
def usedTraits (header : Text) : Text := trimRight (· == ';') (before (header.drop 4) "\x7b")

/-- Reads a header directly inside a type. -/
def member (imported : List (String × String)) (owner : Declaration) (header : Text) (line : Nat) (w : Walk Unit) : Walk Unit :=
  match methodHeader.matchStart? header with
  | none =>
    if owner.kind = .class_ ∧ startsWith header "use " then
      w.linkAll owner.id (typeIds imported w.scan .class_ (usedTraits header)) .extending
    else w
  | some m =>
    let name := String.ofList (m.get .name)
    let modifiers := words (m.get .modifiers)
    let signature := owner.name ++ "::" ++ name ++ "(" ++ String.ofList (squeeze (m.get .params)) ++ ")"
    let (w, d) := w.declare
      { w.scan.draft .method name line (some signature) with
        exported := owner.exported && !modifiers.contains "private".toList && !modifiers.contains "protected".toList
        parameterCount := some (Header.countParameters (m.get .params))
        returnType := returnType header }
    w.memberOf d owner

/-- Reads a header. -/
def visit (imported : List (String × String)) (header : Text) (line : Nat) (w : Walk Unit) : Walk Unit :=
  let header := attributes.replaceAll "" header
  if header.isEmpty then w
  else match w.owner with
    | some owner => member imported owner header line w
    | none => topLevel imported header line w

/-- The declarations, imports and calls of a file. -/
def read (file : SourceFile) : Fragment :=
  let scan := FileScan.start file .php
  let edges := importEdges file.repoId file.path file.language
    (resolve file.known file.path (ownNamespace? file.content.text)) (importStatements scan.lines)
  (Walk.run true (visit (importedSymbolFiles edges)) scan ()).scan.finish decision .cLike edges

end CodeAtlas.Php
