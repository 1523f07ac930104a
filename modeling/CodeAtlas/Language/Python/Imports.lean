import CodeAtlas.Import.Edges
import CodeAtlas.Pattern.Match
import CodeAtlas.Source.Noise
import CodeAtlas.Text.Lines

/-!
# Imports of Python

An import statement may run over several lines, in brackets or with backslashes. Dotted names are looked up below the source roots,
names with leading dots relative to the package of the file.
-/

namespace CodeAtlas.Python

open Text Pattern

/-- Any character but a line feed. -/
def inLine (c : Char) : Bool := c != '\n'

/-- `import …`. -/
def plainImport : Pattern := start ++ blanks ++ "import" ++ gap ++ .part .items (some1 inLine) ++ ending

/-- `from … import …`. -/
def fromImport : Pattern :=
  start ++ blanks ++ "from" ++ gap ++ .part .specifier (any0 (among ".") ++ any0 (wordOr ".")) ++ gap ++ "import" ++ gap ++
    .part .items (some1 inLine) ++ ending

/-- How many round brackets a piece of code opens, less those it closes. -/
def bracketDelta (code : Text) : Int := (code.count '(' : Int) - code.count ')'

/-- Joins the lines that go on with a statement: `depth` brackets are open after `text`. The number of lines joined is given with
the text. -/
def continued (text : Text) (depth : Int) : List Text → Text × Nat
  | [] => (text, 0)
  | l :: ls =>
    if depth ≤ 0 ∧ !endsWith text "\\" then (text, 0)
    else
      let next := strip (Noise.hash.strip l)
      let (joined, n) := continued (trimRight (· == '\\') text ++ ' ' :: next) (depth + bracketDelta next) ls
      (joined, n + 1)

/-- The statement that begins with the first of the lines, on one line, and how many more lines it takes. -/
def logicalLine (lines : List Text) : Text × Nat :=
  let text := trimRight isBlank (Noise.hash.strip (lines.headD []))
  continued text (bracketDelta text) (lines.drop 1)

/-- The modules of a plain import. -/
def modules (items : Text) : List String :=
  (((splitOn ',' items).map fun p => strip (before p " as ")).filter fun m => !m.isEmpty).map String.ofList

/-- The imports of a logical line. -/
def ofLogicalLine (line : Nat) (text : Text) : List ImportStatement :=
  match fromImport.matchStart? text with
  | some m =>
    let specifier := String.ofList (m.get .specifier)
    let names := trim (among "()") (strip (m.get .items))
    if strip names = ['*'] then [{ specifier, line, importAll := true }]
    else [{ specifier, line, symbols := ImportStatement.symbolList names }]
  | none =>
    match plainImport.matchStart? text with
    | some m => (modules (m.get .items)).map fun specifier => { specifier, line, importAll := true }
    | none => []

/-- The imports of the lines from number `line` on, the next `skip` of which belong to a statement already read. -/
def importsFrom : (skip line : Nat) → List Text → List ImportStatement
  | _, _, [] => []
  | skip + 1, line, _ :: ls => importsFrom skip (line + 1) ls
  | 0, line, l :: ls =>
    if startsWithAny (trimLeft isBlank l) ["import ", "from "] then
      let (text, more) := logicalLine (l :: ls)
      ofLogicalLine line text ++ importsFrom more (line + 1) ls
    else importsFrom 0 (line + 1) ls

/-- The imports of a file. -/
def importStatements (lines : List Text) : List ImportStatement := importsFrom 0 1 lines

/-- The directories below which dotted names are looked up. -/
def sourceRoots : List String := ["", "src/", "lib/"]

/-- The files that a module path may stand for. -/
def moduleFiles (base : String) : List String := [base ++ ".py", base ++ ".pyi", base ++ "/__init__.py"]

/-- The file of a module, or the directory of a package. -/
def atPath? (known : KnownPaths) (base : String) : Option ImportTarget :=
  if base.isEmpty then none
  else match known.firstFile? (moduleFiles base) with
    | some p => some (.file p)
    | none => if known.hasDir base then some (.directory base) else none

/-- The target of a module path below one of the source roots. -/
def underRoots? (known : KnownPaths) (modulePath : String) : Option ImportTarget :=
  sourceRoots.findSome? fun root =>
    atPath? known (if modulePath.isEmpty then String.ofList (trimRight (· == '/') root.text) else root ++ modulePath)

/-- Climbs `n` directories. -/
def climb : Nat → String → String
  | 0, dir => dir
  | n + 1, dir => climb n (Path.dirname dir)

/-- The target of a name with leading dots: one dot stands for the directory of the file, each further one for a directory above. -/
def ofRelative (known : KnownPaths) (path : String) (specifier : Text) : ImportTarget :=
  let dots := (specifier.takeWhile (· == '.')).length
  let dir := climb (dots - 1) (Path.dirname path)
  let rest := String.ofList (replace '.' "/" (specifier.drop dots))
  let base := if rest.isEmpty then dir else Path.join dir rest
  match atPath? known base with
  | some t => t
  | none =>
    .guess (if rest.isEmpty then String.ofList (trimLeft (· == '/') (base ++ "/__init__.py").text) else base ++ ".py")

/-- The target of a dotted name. A package whose outermost directory lies deeper in the workspace is found by the end of its path. -/
def ofDotted? (known : KnownPaths) (specifier : Text) : Option ImportTarget :=
  let modulePath := String.ofList (replace '.' "/" specifier)
  match underRoots? known modulePath with
  | some t => some t
  | none =>
    let nested := modulePath.text.contains '/' &&
      (known.lookupDir (String.ofList (modulePath.text.before "/"))).any fun d => !d.isEmpty
    if nested then (known.lookup modulePath [".py", ".pyi", "/__init__.py"]).map .file else none

/-- The target of a specifier; none for a package from elsewhere. -/
def resolve (known : KnownPaths) (path : String) : Resolver := fun specifier =>
  if specifier.text.startsWith "." then some (ofRelative known path specifier.text)
  else if Boundary.isStandardLibrary specifier "python" then none
  else ofDotted? known specifier.text

end CodeAtlas.Python
