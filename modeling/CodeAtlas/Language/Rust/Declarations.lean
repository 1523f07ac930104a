import CodeAtlas.Language.Rust.Imports
import CodeAtlas.Source.Walk

/-!
# Declarations of Rust

Functions, structs, enumerations, traits, type aliases and inline modules are recognised by their headers. Methods of an `impl` block
are attached to the type after the walk, when all types of the file are known.
-/

namespace CodeAtlas.Rust

open Text Pattern

/-- The places where a body makes a decision. -/
def decision : Pattern :=
  (edge ++ anyOf ["if", "else" ++ gap ++ "if", "for", "while", "loop", "match"] ++ edge) <|> lit "&&" <|> lit "||" <|> lit "?"

/-- A function. -/
def fnHeader : Pattern :=
  start ++ visibility ++
    .part .modifiers (star (anyOf
      ["default", "const", "async", "unsafe", "extern" ++ gap ++ "\"" ++ any0 (except "\"") ++ "\"", "extern"] ++ gap) false) ++
    "fn" ++ gap ++ .part .name identifier ++ blanks ++ opt ("<" ++ any0 (except "(") ++ ">") ++ blanks ++ "("

/-- A struct, enumeration or union. -/
def structHeader : Pattern :=
  start ++ visibility ++ .part .keyword (oneOfWords ["struct", "enum", "union"]) ++ gap ++ .part .name identifier

/-- A trait. -/
def traitHeader : Pattern := start ++ visibility ++ opt ("unsafe" ++ gap) ++ "trait" ++ gap ++ .part .name identifier

/-- A type alias. -/
def typeHeader : Pattern := start ++ visibility ++ "type" ++ gap ++ .part .name identifier

/-- A module with its body. -/
def modHeader : Pattern := start ++ visibility ++ "mod" ++ gap ++ .part .name identifier ++ blanks ++ "\x7b"

/-- Type arguments, as few characters as possible. -/
def typeArguments : Pattern := "<" ++ few0 (· != '\n') ++ ">"

/-- An implementation of a type, of a trait for it where one is named. -/
def implHeader : Pattern :=
  start ++ opt ("unsafe" ++ gap) ++ "impl" ++ blanks ++ opt typeArguments ++ blanks ++
    opt (.part .trait (opt "!" ++ some1 (wordOr ":")) ++ opt typeArguments ++ gap ++ "for" ++ gap) ++ opt "&" ++
    .part .name (some1 (wordOr ":"))

/-- The type after a parameter list. -/
def returnClause : Pattern :=
  ")" ++ blanks ++ "->" ++ blanks ++ .part .returnType (few1 (except "\x7b;")) ++ blanks ++
    (("where" ++ edge) <|> lit "\x7b" <|> lit ";" <|> ending)

/-- The ways to write the receiver, which is not counted. -/
def receivers : List String := ["self", "&self", "&mut self", "mut self", "&'a self", "&'a mut self"]

/-- What is kept for after the walk: methods by id with the type they implement, and types with the traits they implement. -/
structure Notes where
  members : List (String × String) := []
  traits : List (String × String) := []

/-- The scope kind of an implementation, which is no entity. -/
def implKind : EntityKind := ⟨"impl"⟩

/-- The last segment of a path. -/
def lastSegment (path : Text) : String := String.ofList (afterLast path "::")

/-- Records a function, or a method directly inside an implementation or trait. A method of a trait, or of an implementation of one,
is as visible as the trait. -/
def declareFunction (header : Text) (line : Nat) (m : Match) (w : Walk Notes) : Walk Notes :=
  let name := String.ofList (m.get .name)
  let params := Header.bracketedText header
  let shown := name ++ "(" ++ String.ofList (squeeze params) ++ ")"
  let fill (d : Declaration) : Declaration :=
    { d with
      exported := m.has .visibility
      isAsync := (words (m.get .modifiers)).contains "async".toList
      parameterCount := some (Header.countParameters params receivers)
      returnType := (returnClause.search? header).map fun r => String.ofList (strip (r.get .returnType)) }
  match w.owner.filter fun o => o.kind == implKind || o.kind == .interface with
  | none => (w.declare (fill (w.scan.draft .function name line (some ("fn " ++ shown))))).1
  | some owner =>
    let (w, d) := w.declare (fill (w.scan.draft .method name line (some (owner.name ++ "::" ++ shown))))
    if owner.kind = implKind then
      { w with
        scan := w.scan.modify d.id fun d => { d with parent := some owner.name, exported := d.exported || owner.exported }
        notes := { w.notes with members := w.notes.members ++ [(d.id, owner.name)] } }
    else
      { w with scan := w.scan.modify d.id fun d => { d with exported := owner.exported } }.memberOf d owner

/-- Enters an implementation. -/
def enterImpl (line : Nat) (m : Match) (w : Walk Notes) : Walk Notes :=
  let name := lastSegment (m.get .name)
  let trait := m.get .trait
  let w := if trait.isEmpty || startsWith trait "!" then w
    else { w with notes := { w.notes with traits := w.notes.traits ++ [(name, lastSegment trait)] } }
  w.push { w.scan.draft implKind name line with exported := m.has .trait }

/-- Reads a header. -/
def visit (header : Text) (line : Nat) (w : Walk Notes) : Walk Notes :=
  let draft (kind : EntityKind) (m : Match) : Declaration :=
    { w.scan.draft kind (String.ofList (m.get .name)) line with exported := m.has .visibility }
  match fnHeader.matchStart? header with
  | some m => declareFunction header line m w
  | none =>
  match structHeader.matchStart? header with
  | some m => (w.declare (draft (if m.get .keyword = "enum".toList then .enum else .struct) m)).1
  | none =>
  match traitHeader.matchStart? header with
  | some m =>
    let (w, d) := w.declare (draft .interface m)
    w.push d
  | none =>
  match implHeader.matchStart? header with
  | some m => enterImpl line m w
  | none =>
  match modHeader.matchStart? header with
  | some m =>
    let (w, d) := w.declare (draft .module_ m)
    w.push d
  | none =>
  match if w.owner.isNone then typeHeader.matchStart? header else none with
  | some m => (w.declare { draft .type m with block := if header.contains '=' then .statement else .line }).1
  | none => w

/-- The kinds of declarations that methods and traits are attached to. -/
def typeKinds : List EntityKind := [.struct, .enum, .interface, .type]

/-- Attaches methods to their types and types to their traits. -/
def attach (w : Walk Notes) : FileScan :=
  let id? (name : String) : Option String :=
    (w.scan.decls.find? fun d => typeKinds.contains d.kind && d.name == name).map (·.id)
  let scan := w.notes.members.foldl (fun scan p =>
    match id? p.2 with
    | some t => scan.link p.1 t .memberOf
    | none => scan) w.scan
  w.notes.traits.foldl (fun scan p =>
    match id? p.1, id? p.2 with
    | some t, some trait => scan.link t trait .implementing
    | _, _ => scan) scan

/-- Comments of three or two slashes and block comments. -/
def docStyle : DocStyle := .above ["///", "//"] true

/-- The declarations, imports and calls of a file. -/
def read (file : SourceFile) : Fragment :=
  let edges := importEdges file.repoId file.path file.language (resolve file.known file.path) (importStatements file.content.text)
  (attach (Walk.run true visit (FileScan.start file .rust) {})).finish decision docStyle edges

end CodeAtlas.Rust
