import CodeAtlas.Import.KnownPaths

/-!
# What an import names

A specifier that points into the workspace is resolved to a path. The path is certain when the workspace has such a file or
directory, and a best guess otherwise.
-/

namespace CodeAtlas

/-- A path in the workspace that an import names. -/
structure ImportTarget where
  path : String
  resolved : Bool
  isDirectory : Bool := false
  deriving DecidableEq, Repr

namespace ImportTarget

/-- A file that the workspace has. -/
def file (path : String) : ImportTarget := { path, resolved := true }

/-- A directory that the workspace has. -/
def directory (path : String) : ImportTarget := { path, resolved := true, isDirectory := true }

/-- A path that the workspace does not have. -/
def guess (path : String) : ImportTarget := { path, resolved := false }

/-- A specifier taken relative to the directory of a file, in normal form; none when it leaves the workspace or names its root. -/
def relative? (fromFile specifier : String) : Option String :=
  let base := Path.dirname fromFile
  let p := Path.normalize (if base.isEmpty then specifier else Path.join base specifier)
  if p = "." ∨ p = ".." ∨ p.text.startsWith "../" then none else some p

/-- The paths under which a module may be found: the base itself, the base with an extension, and an index file in the base. -/
def candidates (base : String) (extensions indexNames : List String) : List String :=
  base :: extensions.map (base ++ ·) ++ indexNames.flatMap fun n => extensions.map fun e => base ++ "/" ++ n ++ e

/-- The first candidate that is a file, or else the base as a directory, or else the base as a guess. -/
def ofCandidates (known : KnownPaths) (base : String) (extensions : List String) (indexNames : List String := []) : ImportTarget :=
  match known.firstFile? (candidates base extensions indexNames) with
  | some p => file p
  | none => if known.hasDir base then directory base else guess base

end ImportTarget

end CodeAtlas
