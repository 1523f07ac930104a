import CodeAtlas.Import.Edges
import CodeAtlas.Pattern.Match

/-!
# Imports of C#

A `using` directive names a namespace, not a file. A namespace is a directory of the workspace that its segments spell, dots and
slashes mixed; one that shares its root with the file's own namespace is taken for internal all the same.
-/

namespace CodeAtlas.CSharp

open Text Pattern

/-- `using …;`. -/
def usingLine : Pattern :=
  start ++ blanks ++ opt ("global" ++ gap) ++ "using" ++ gap ++ opt (.part .static ("static" ++ gap)) ++
    opt (word ++ blanks ++ "=" ++ blanks) ++ .part .specifier (some1 (wordOr ".")) ++ blanks ++ ";"

/-- `namespace …`. -/
def namespaceHeader : Pattern :=
  start ++ "namespace" ++ gap ++ .part .name (some1 (wordOr ".")) ++ blanks ++
    .part .terminator (lit ";" <|> lit "\x7b" <|> ending)

/-- The import of a directive. One that is static brings the members of a type into scope. -/
def ofMatch (line : Nat) (m : Match) : ImportStatement :=
  let target := m.get .specifier
  if m.has .static then
    let owner := beforeLast target "."
    { specifier := String.ofList (if owner.isEmpty then target else owner), line,
      symbols := [String.ofList (afterLast target ".")], importAll := true }
  else { specifier := String.ofList target, line, importAll := true }

/-- The imports of a file. -/
def importStatements (lines : List Text) : List ImportStatement :=
  (lines.zipIdx 1).filterMap fun (l, line) => (usingLine.matchStart? l).map (ofMatch line)

/-- The namespace that a file declares first. -/
def ownNamespace? (lines : List Text) : Option String :=
  lines.findSome? fun l => (namespaceHeader.matchStart? (strip l)).map fun m => String.ofList (m.get .name)

/-- The directories that a namespace may be: more and more of its last segments are directories of their own. -/
def directories (segments : List String) : List String :=
  (List.range segments.length).reverse.map fun n =>
    Path.ofSegments (".".intercalate (segments.take (n + 1)) :: segments.drop (n + 1))

/-- The target of a namespace; none for one of a package. -/
def resolve (known : KnownPaths) (own : Option String) : Resolver := fun specifier =>
  if Boundary.isStandardLibrary specifier "csharp" then none
  else
    let segments := (splitOn '.' specifier.text).map String.ofList
    let path := Path.ofSegments segments
    match ((directories segments).flatMap fun d => [d, path]).findSome? known.lookupDir with
    | some d => some (.directory d)
    | none =>
      let isOwn := own.any fun o => !o.isEmpty && Boundary.firstPiece "." o == segments.headD ""
      if isOwn then some { path, resolved := false, isDirectory := true } else none

end CodeAtlas.CSharp
