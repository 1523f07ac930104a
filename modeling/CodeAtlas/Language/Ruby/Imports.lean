import CodeAtlas.Import.Edges
import CodeAtlas.Pattern.Match

/-!
# Imports of Ruby

Files are required by name from the load path, or relative to the requiring file.
-/

namespace CodeAtlas.Ruby

open Text Pattern

/-- `require`, `require_relative` or `load` with a quoted name. -/
def requireLine : Pattern :=
  start ++ blanks ++ .part .keyword (oneOfWords ["require", "require_relative", "load"]) ++ blanks ++ opt "(" ++ blanks ++
    one (among "'\"") ++ .part .specifier (some1 (except "'\"")) ++ one (among "'\"")

/-- The import of a line. A relative name without a dot in front is given one. -/
def ofMatch (line : Nat) (m : Match) : ImportStatement :=
  let specifier := m.get .specifier
  let dotted := m.get .keyword == "require_relative".toList && !startsWith specifier "."
  { specifier := String.ofList (if dotted then '.' :: '/' :: specifier else specifier), line, importAll := true }

/-- The imports of a file. -/
def importStatements (lines : List Text) : List ImportStatement :=
  (lines.zipIdx 1).filterMap fun (l, line) => (requireLine.matchStart? l).map (ofMatch line)

/-- The directories of the load path. -/
def loadPath : List String := ["lib/", "app/", ""]

/-- The target of a specifier; none for a library. -/
def resolve (known : KnownPaths) (path : String) : Resolver := fun specifier =>
  if specifier.text.startsWith "." then
    match ImportTarget.relative? path specifier with
    | some base => some (.ofCandidates known base [".rb"])
    | none => some (.guess specifier)
  else if Boundary.isStandardLibrary specifier "ruby" then none
  else
    let stem := if specifier.text.endsWith ".rb" then String.ofList (specifier.text.take (specifier.length - 3)) else specifier
    match known.firstFile? (loadPath.map fun root => root ++ stem ++ ".rb") with
    | some p => some (.file p)
    | none => if stem.text.contains '/' then (known.lookup stem [".rb"]).map .file else none

end CodeAtlas.Ruby
