import CodeAtlas.Workspace.Manifest
import CodeAtlas.Workspace.Tree

/-!
# Packages of a workspace

A workspace may hold several packages, each with an index of its own. The package managers are asked in a fixed order, and the first
that names a directory of the workspace decides; without any the whole workspace is one package.
-/

namespace CodeAtlas

/-- What manages the packages of a workspace. -/
inductive PackageManager where
  | single
  | pnpm
  | nx
  | lerna
  | npm
  | yarn
  deriving DecidableEq, Repr

namespace PackageManager

/-- The name of a manager. -/
def name : PackageManager → String
  | single => "single"
  | pnpm => "pnpm"
  | nx => "nx"
  | lerna => "lerna"
  | npm => "npm"
  | yarn => "yarn"

end PackageManager

/-- The packages of a workspace: their directories as the manifest leads to them, and what manages them. -/
structure PackageRoots where
  roots : List String := ["."]
  manager : PackageManager := .single

namespace PackageRoots

/-- The directory that a pattern is about, and whether it means the directories in it. -/
def patternBase (pattern : Text) : Text × Bool :=
  if Text.endsWithAny pattern ["/*", "/**"] then
    (Text.trimRight (· == '/') (Text.trimRight (· == '*') pattern), true)
  else (Text.trimRight (· == '/') pattern, false)

/-- The directories of one pattern. Negations and patterns with a star in the middle name none. -/
def ofPattern (w : Workspace) (pattern : String) : List String :=
  let p := Text.strip pattern.text
  let (base, inside) := patternBase p
  let dir := String.ofList base
  if p.isEmpty || p.startsWith "!" || base.contains '*' || !w.isDirectory dir then []
  else if inside then ((w.names dir).map fun n => (dir ++ "/" ++ n, Path.join dir n)).filterMap fun (shown, path) =>
    if w.isDirectory path then some shown else none
  else [dir]

/-- The directories of some patterns, one pattern after the other. -/
def ofPatterns (w : Workspace) (patterns : List String) : List String := patterns.flatMap (ofPattern w)

/-- The directories of a list in a manifest. -/
def ofField (w : Workspace) (fields : List (String × Json)) : List String :=
  ofPatterns w (Manifest.patterns (Json.field? "packages" fields))

/-- Where packages are kept by convention. -/
def conventionalDirs : List String := ["packages", "apps", "libs"]

/-- The packages in the conventional places, or else the workspace itself. -/
def conventional (w : Workspace) : List String :=
  let found := conventionalDirs.flatMap fun d => if w.isDirectory d then ofPattern w (d ++ "/*") else []
  if found.isEmpty then ["."] else found

/-- The directories that a package manifest names for its workspaces, as a list or as a field of a map. -/
def ofPackageManifest (w : Workspace) (fields : List (String × Json)) : List String :=
  match Json.field? "workspaces" fields with
  | some (.object inner) => ofField w inner
  | v => ofPatterns w (Manifest.patterns v)

/-- The roots that a manager names, unless there are none. -/
def some? (manager : PackageManager) (roots : List String) : Option PackageRoots :=
  if roots.isEmpty then none else some { roots, manager }

/-- The fields of a JSON manifest of a workspace, if there is such a file. -/
def manifest? (w : Workspace) (path : String) : Option (List (String × Json)) := (w.content? path).map Manifest.jsonFields

/-- The packages of a workspace. -/
def ofWorkspace (w : Workspace) : Except NotText PackageRoots := do
  let pnpm ← match w.content? "pnpm-workspace.yaml" with
    | some bytes => (Manifest.yamlFields bytes).map fun fields => some? .pnpm (ofField w fields)
    | none => .ok none
  let nx := if w.isFile "nx.json" then some? .nx (conventional w) else none
  let lerna := (manifest? w "lerna.json").bind fun fields => some? .lerna (ofField w fields)
  let npm := (manifest? w "package.json").bind fun fields =>
    some? (if w.isFile "yarn.lock" then .yarn else .npm) (ofPackageManifest w fields)
  return (pnpm <|> nx <|> lerna <|> npm).getD {}

end PackageRoots

end CodeAtlas
