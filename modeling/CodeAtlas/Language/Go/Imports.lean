import CodeAtlas.Import.Edges
import CodeAtlas.Pattern.Match

/-!
# Imports of Go

Packages are directories, so an import points at a directory; it brings the whole package into scope. Imports stand alone or in a
bracketed block.
-/

namespace CodeAtlas.Go

open Text Pattern

/-- A path between double quotes, with an alias in front. -/
def quotedPath : Pattern :=
  opt (.part .alias (some1 (wordOr ".")) ++ gap) ++ "\"" ++ .part .specifier (some1 (except "\"")) ++ "\""

/-- An import on a line of its own. -/
def singleImport : Pattern := start ++ "import" ++ gap ++ quotedPath

/-- A line of an import block. -/
def blockLine : Pattern := start ++ blanks ++ quotedPath

/-- The import of a match; one for its side effects only, with an underscore as alias, binds nothing. -/
def ofMatch (line : Nat) (m : Match) : List ImportStatement :=
  if m.get? .alias = some ['_'] then [] else [{ specifier := String.ofList (m.get .specifier), line, importAll := true }]

/-- The imports of the lines from number `line` on; `inBlock` tells whether they begin inside an import block. -/
def importsFrom : (inBlock : Bool) → (line : Nat) → List Text → List ImportStatement
  | _, _, [] => []
  | true, line, l :: ls =>
    let t := strip l
    if startsWith t ")" then importsFrom false (line + 1) ls
    else ((blockLine.matchStart? t).toList.flatMap (ofMatch line)) ++ importsFrom true (line + 1) ls
  | false, line, l :: ls =>
    let t := strip l
    if startsWith t "import (" then importsFrom true (line + 1) ls
    else ((singleImport.matchStart? t).toList.flatMap (ofMatch line)) ++ importsFrom false (line + 1) ls

/-- The imports of a file. -/
def importStatements (lines : List Text) : List ImportStatement := importsFrom false 1 lines

/-- The target of a specifier: the directory whose path ends in as many of its segments as possible, two at least. -/
def resolve (known : KnownPaths) : Resolver := fun specifier =>
  if Boundary.isStandardLibrary specifier "go" then none
  else
    let tails := (Path.segmentTails (Path.segments specifier)).filter fun ss => decide (2 ≤ ss.length)
    (tails.findSome? fun ss => known.lookupDir (Path.ofSegments ss)).map .directory

end CodeAtlas.Go
