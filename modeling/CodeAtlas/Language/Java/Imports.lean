import CodeAtlas.Import.Edges
import CodeAtlas.Pattern.Match

/-!
# Imports of Java

Packages follow directories: a qualified name is the tail of a path. An import names a class, all of a package, or a static member of
a class.
-/

namespace CodeAtlas.Java

open Text Pattern

/-- `import …;`. -/
def importLine : Pattern :=
  start ++ blanks ++ "import" ++ gap ++ opt (.part .static ("static" ++ gap)) ++ .part .specifier (few1 (wordOr ".")) ++
    opt (.part .wildcard ".*") ++ blanks ++ ";"

/-- The import of a line. -/
def ofMatch (line : Nat) (m : Match) : ImportStatement :=
  let path := m.get .specifier
  let last := String.ofList (afterLast path ".")
  if m.has .wildcard then { specifier := String.ofList path, line, importAll := true }
  else if m.has .static then { specifier := String.ofList (beforeLast path "."), line, symbols := [last] }
  else { specifier := String.ofList path, line, symbols := [last] }

/-- The imports of a file. -/
def importStatements (lines : List Text) : List ImportStatement :=
  (lines.zipIdx 1).filterMap fun (l, line) => (importLine.matchStart? l).map (ofMatch line)

/-- The target of a qualified name: a source file, or the directory of a package of at least two segments. -/
def resolve (known : KnownPaths) : Resolver := fun specifier =>
  let path := String.ofList (replace '.' "/" specifier.text)
  match known.lookup path [".java"] with
  | some p => some (.file p)
  | none => if path.text.contains '/' then (known.lookupDir path).map .directory else none

end CodeAtlas.Java
