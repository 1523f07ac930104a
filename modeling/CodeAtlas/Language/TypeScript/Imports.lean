import CodeAtlas.Import.Edges
import CodeAtlas.Pattern.Match
import CodeAtlas.Text.Lines

/-!
# Imports of TypeScript and JavaScript

A module is imported by `import` and re-exported by `export … from`, required by a call, or imported by a call. Relative specifiers
and the aliases of the source root name files of the workspace.
-/

namespace CodeAtlas.TypeScript

open Text Pattern

/-- The first character of a name. -/
def isNameStart (c : Char) : Bool := Text.isNameStart c || c == '$'

/-- A name. -/
def name : Pattern := one isNameStart ++ any0 (wordOr "$")

/-- Blanks at the start of a line. -/
def indentation : Pattern := lineStart ++ any0 (among " \t")

/-- A specifier between quotes. -/
def quotedSpecifier : Pattern := one (among "'\"") ++ .part .specifier (some1 (except "'\"")) ++ one (among "'\"")

/-- The characters between `import` and `from`. -/
def isClauseChar (c : Char) : Bool := wordOr "$*\x7b\x7d," c || isBlank c

/-- `import … from '…'` and `export … from '…'`. -/
def importFrom : Pattern :=
  indentation ++ oneOfWords ["import", "export"] ++ gap ++ opt (.part .typeOnly ("type" ++ gap)) ++
    .part .clause (few0 isClauseChar) ++ blanks ++ "from" ++ blanks ++ quotedSpecifier

/-- `import '…'`. -/
def sideEffectImport : Pattern := indentation ++ "import" ++ gap ++ quotedSpecifier

/-- `require('…')`, with the names it is bound to. -/
def requireCall : Pattern :=
  opt (oneOfWords ["const", "let", "var"] ++ gap ++
      .part .binding (("\x7b" ++ any0 (except "\x7d") ++ "\x7d") <|> some1 (wordOr "$")) ++ blanks ++ "=" ++ blanks) ++
    edge ++ "require(" ++ blanks ++ quotedSpecifier ++ blanks ++ ")"

/-- `import('…')`. -/
def dynamicImport : Pattern := edge ++ "import(" ++ blanks ++ quotedSpecifier ++ blanks ++ ")"

/-- The exported names that a clause binds, and whether it binds the whole module. -/
def clauseSymbols (clause : Text) : List String × Bool :=
  let clause := strip clause
  let (head, braced) := match ImportStatement.braced? clause with
    | some (head, inner) => (head, ImportStatement.symbolList inner)
    | none => (clause, [])
  let parts := ((splitOn ',' head).map strip).filter fun p => !p.isEmpty
  let named := parts.filter fun p => !startsWith p "*" && p != "type".toList
  ((braced ++ named.map String.ofList).eraseDups, parts.any fun p => startsWith p "*")

/-- The names bound by destructuring: `a: b` takes `a` under another name. -/
def destructured (binding : Text) : List String :=
  ImportStatement.symbolList (replace ':' " as " (trim (among "\x7b\x7d") binding))

/-- The statement of a match, at the line where the match begins. -/
def statement (content : Text) (m : Match) (symbols : List String) (typeOnly importAll : Bool) : Nat × ImportStatement :=
  (m.offset,
    { specifier := String.ofList (m.get .specifier), line := lineAfter (content.take m.offset), symbols, typeOnly, importAll })

/-- The statement of `import … from`. -/
def ofImportFrom (content : Text) (m : Match) : Nat × ImportStatement :=
  let (symbols, all) := clauseSymbols (m.get .clause)
  statement content m symbols (m.has .typeOnly) all

/-- The statement of a required module. -/
def ofRequire (content : Text) (m : Match) : Nat × ImportStatement :=
  let binding := strip (m.get .binding)
  if startsWith binding "\x7b" then statement content m (destructured binding) false false
  else statement content m [] false (!binding.isEmpty)

/-- The imports of a file, in the order in which they begin. -/
def importStatements (content : Text) : List ImportStatement :=
  let found :=
    (importFrom.findAll content).map (ofImportFrom content) ++
    (sideEffectImport.findAll content).map (fun m => statement content m [] false false) ++
    (requireCall.findAll content).map (ofRequire content) ++
    (dynamicImport.findAll content).map (fun m => statement content m [] false true)
  (found.mergeSort fun a b => decide (a.1 ≤ b.1)).map (·.2)

/-- The extensions that a specifier may leave out. -/
def extensions : List String := [".ts", ".tsx", ".d.ts", ".js", ".jsx", ".mjs", ".cjs"]

/-- The files that stand for their directory. -/
def indexNames : List String := ["index"]

/-- What the specifiers of the source root begin with. -/
def aliases : List String := ["@/", "~/"]

/-- The candidates for a path without or with extension. -/
def ofPath (known : KnownPaths) (p : String) : ImportTarget := ImportTarget.ofCandidates known p extensions indexNames

/-- The target of a relative path. A specifier may name the compiled file, whose source has another extension. -/
def ofRelative (known : KnownPaths) (base : String) : ImportTarget :=
  let target := ofPath known base
  if !target.resolved && base.text.endsWithAny [".js", ".jsx", ".mjs", ".cjs"] then
    let source := ofPath known (String.ofList (base.text.beforeLast "."))
    if source.resolved then source else target
  else target

/-- The target of a path under the source root. -/
def ofAlias (known : KnownPaths) (rest : String) : ImportTarget :=
  let target := ofPath known rest
  if target.resolved then target
  else
    let underSource := ofPath known ("src/" ++ rest)
    if underSource.resolved then underSource else target

/-- The target of a specifier; none for a package. -/
def resolve (known : KnownPaths) (path : String) : Resolver := fun specifier =>
  if specifier.text.startsWith "." then
    match ImportTarget.relative? path specifier with
    | some base => some (ofRelative known base)
    | none => some (.guess specifier)
  else (aliases.find? specifier.text.startsWith).map fun a => ofAlias known (String.ofList (specifier.text.drop a.length))

end CodeAtlas.TypeScript
