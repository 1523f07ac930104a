import CodeAtlas.Import.Edges
import CodeAtlas.Pattern.Match

/-!
# Imports of PHP

Qualified names follow the autoloading rule: after a vendor part they are the tail of a path. Files may also be included by a path.
-/

namespace CodeAtlas.Php

open Text Pattern

/-- A qualified name. -/
def qualified : Pattern := some1 (wordOr "\\")

/-- `function` or `const` in a use declaration. -/
def useKind : Pattern := opt (.part .keyword (("function" ++ gap) <|> ("const" ++ gap)))

/-- `use …;`. -/
def useLine : Pattern :=
  start ++ blanks ++ "use" ++ gap ++ useKind ++ .part .specifier qualified ++ opt (gap ++ "as" ++ gap ++ word) ++ blanks ++ ";"

/-- `use …\{…};`. -/
def groupUse : Pattern :=
  start ++ blanks ++ "use" ++ gap ++ useKind ++ .part .specifier qualified ++ "\\\x7b" ++ .part .items (any0 (except "\x7d")) ++ "\x7d" ++
    blanks ++ ";"

/-- `require '….php'` and `include '….php'`, also below the directory of the file. -/
def includeCall : Pattern :=
  edge ++ oneOfWords ["require", "include"] ++ opt "_once" ++ blanks ++ opt "(" ++ blanks ++
    opt (.part .ownDirectory ("__DIR__" ++ blanks ++ "." ++ blanks)) ++ one (among "'\"") ++
    .part .specifier (some1 (except "'\"") ++ ".php") ++ one (among "'\"")

/-- `namespace …`. -/
def namespaceLine : Pattern :=
  lineStart ++ blanks ++ "namespace" ++ gap ++ .part .name qualified ++ blanks ++ one (among ";\x7b")

/-- A name without backslashes at its ends. -/
def bare (t : Text) : Text := trim (· == '\\') t

/-- The import of a class by its full name. -/
def ofName (line : Nat) (full : Text) : ImportStatement :=
  { specifier := String.ofList full, line, symbols := [String.ofList (afterLast full "\\")] }

/-- The imports of a grouped use declaration. -/
def ofGroup (line : Nat) (m : Match) : List ImportStatement :=
  let names := ((splitOn ',' (m.get .items)).map fun i => strip (before i " as ")).filter fun n => !n.isEmpty
  names.map fun n => ofName line (bare (m.get .specifier) ++ '\\' :: n)

/-- The import of a use declaration. A function is a symbol of the namespace it lies in. -/
def ofUse (line : Nat) (m : Match) : ImportStatement :=
  let full := bare (m.get .specifier)
  if strip (m.get .keyword) = "function".toList then
    let own := beforeLast full "\\"
    { specifier := String.ofList (if own.isEmpty then full else own), line, symbols := [String.ofList (afterLast full "\\")] }
  else ofName line full

/-- The import of an included path. An absolute path counts only below the directory of the file. -/
def ofInclude (line : Nat) (m : Match) : Option ImportStatement :=
  let path := m.get .specifier
  let relative := if startsWith path "/" then '.' :: path else if startsWith path "." then path else '.' :: '/' :: path
  if startsWith path "/" && !m.has .ownDirectory then none
  else some { specifier := String.ofList relative, line, importAll := true }

/-- The imports of a line. A use declaration that is indented includes traits and imports nothing. -/
def ofLine (line : Nat) (l : Text) : List ImportStatement :=
  match groupUse.matchStart? l with
  | some m => ofGroup line m
  | none =>
    match if startsWithAny l [" ", "\t"] then none else useLine.matchStart? l with
    | some m => [ofUse line m]
    | none => (includeCall.findAll l).filterMap (ofInclude line)

/-- The imports of a file. -/
def importStatements (lines : List Text) : List ImportStatement :=
  (lines.zipIdx 1).flatMap fun (l, line) => ofLine line l

/-- The namespace of a file. -/
def ownNamespace? (content : Text) : Option String :=
  (namespaceLine.search? content).map fun m => String.ofList (bare (m.get .name))

/-- The target of a qualified name: the file whose path ends in as many of its segments as possible, two at least; under the vendor
part of the file's own namespace also the directory of its namespace. -/
def ofQualified (known : KnownPaths) (own : Option String) (segments : List String) : Option ImportTarget :=
  let tails := (Path.segmentTails segments).filter fun ss => decide (2 ≤ ss.length)
  match tails.findSome? fun ss => known.lookup (Path.ofSegments ss) [".php"] with
  | some p => some (.file p)
  | none =>
    let dir := Path.ofSegments (segments.drop 1).dropLast
    let isOwn := own.any fun o => !o.isEmpty && Boundary.firstPiece "\\" o == segments.headD ""
    if !dir.isEmpty && isOwn then (known.lookupDir dir).map .directory else none

/-- The target of a specifier; none for a name of a package. -/
def resolve (known : KnownPaths) (path : String) (own : Option String) : Resolver := fun specifier =>
  if specifier.text.startsWith "." then
    match ImportTarget.relative? path specifier with
    | some base => some (.ofCandidates known base [".php"])
    | none => some (.guess specifier)
  else if specifier.text.startsWith "/" then none
  else ofQualified known own ((splitOn '\\' specifier.text).map String.ofList)

end CodeAtlas.Php
