import CodeAtlas.Import.Edges
import CodeAtlas.Pattern.Match

/-!
# Includes of C and C++

A header is looked up beside the including file, below the include roots, and by the end of its path.
-/

namespace CodeAtlas.CFamily

open Text Pattern

/-- `#include`. -/
def includeLine : Pattern :=
  start ++ blanks ++ "#" ++ blanks ++ "include" ++ blanks ++ one (among "<\"") ++ .part .specifier (some1 (except ">\"")) ++
    one (among ">\"")

/-- The includes of a file. -/
def importStatements (lines : List Text) : List ImportStatement :=
  (lines.zipIdx 1).filterMap fun (l, line) =>
    (includeLine.matchStart? l).map fun m => { specifier := String.ofList (m.get .specifier), line, importAll := true }

/-- The directories below which headers are looked up. -/
def includeRoots : List String := ["include/", "src/", ""]

/-- The target of a header name; none for a system header. -/
def resolve (known : KnownPaths) (path : String) : Resolver := fun specifier =>
  let here := Path.dirname path
  let beside := if here.isEmpty then specifier else Path.normalize (Path.join here specifier)
  match known.firstFile? (beside :: includeRoots.map fun root => root ++ specifier) with
  | some p => some (.file p)
  | none => if specifier.text.contains '/' then (known.lookup specifier [""]).map .file else none

end CodeAtlas.CFamily
