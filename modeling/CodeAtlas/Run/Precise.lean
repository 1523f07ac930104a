import CodeAtlas.Language.Registry
import CodeAtlas.SymbolIndex.Package
import CodeAtlas.Workspace.Manifest
import CodeAtlas.Workspace.Scan

/-!
# Indexes in a run

The packages of a workspace are indexed for every language that occurs in it, those with most files first. An index says nothing about
the text of a declaration; body and documentation are taken from the source file.
-/

namespace CodeAtlas

namespace LanguageReader

/-- The languages of the files that a reader claims. -/
def languages (r : LanguageReader) : List String := r.extensions.filterMap languageOfExtension?

/-- The place of the foremost of a reader's languages in a ranking. -/
def rank? (r : LanguageReader) (ranking : List String) : Option Nat :=
  (r.languages.filterMap fun l => ranking.findIdx? (· == l)).min?

/-- What the index of a package says in the languages of a reader. -/
def indexPackage (r : LanguageReader) (tools : Toolbox) (w : Workspace) (root repoId : String) : IndexedSymbols :=
  match r.indexer with
  | some i => i.indexPackage tools w root repoId
  | none => {}

end LanguageReader

namespace Registry

/-- The readers of the languages in a workspace: those of frequent languages first, then in the order of their names. -/
def present (registry : Registry) (files : List ScannedFile) : List LanguageReader :=
  let ranking := (LanguageShare.ofExtensions (files.map (·.extension))).map (·.language)
  let ranked := registry.readers.filterMap fun r => (r.rank? ranking).map fun n => (n, r)
  (ranked.mergeSort fun a b =>
    decide (a.1 < b.1) || (a.1 == b.1 && decide (a.2.name ≤ b.2.name))).map (·.2)

end Registry

/-- How many lines a file has. -/
abbrev LineCounts := List (String × Nat)

namespace Backfill

/-- Where the documentation of declarations in a language stands. -/
def docStyle (language : String) : DocStyle := if language = "python" then .below else .cLike

/-- The string, unless it is missing or empty. -/
def orElse (s : Option String) (other : Option Text) : Option String :=
  match s with
  | some t => if t.isEmpty then other.map String.ofList else some t
  | none => other.map String.ofList

/-- The lines of an entity, at most `maxLines` of them; none when there is no text. -/
def body? (lines : List Text) (maxLines : Nat) (e : Entity) : Option Text :=
  let first := (e.startLine - 1).toNat
  let stop := min (max e.endLine e.startLine).toNat lines.length
  let text := Text.join "\n" ((lines.take (min stop (first + maxLines))).drop first)
  if text.isEmpty then none else some text

/-- The documentation of an entity. -/
def doc? (lines : List Text) (e : Entity) : Option Text :=
  let first := (e.startLine - 1).toNat
  if first < lines.length then (docStyle e.language).find lines (first + 1) else none

/-- The entity with its body and documentation where it has none. -/
def fill (lines : List Text) (maxLines : Nat) (e : Entity) : Entity :=
  { e with body := orElse e.body (body? lines maxLines e), doc := orElse e.doc (doc? lines e) }

/-- The lines of a source file; none when it cannot be read as text. -/
def lines? (w : Workspace) (path : String) : Option (List Text) := ((w.content? path).bind Manifest.text?).map Text.lines

/-- The entities of one file with bodies and documentation, and how many lines the file has. -/
def inFile (w : Workspace) (maxLines : Nat) (path : String) (entities : List Entity) : List Entity × LineCounts :=
  let group := entities.filter fun e => e.filePath == path
  match lines? w path with
  | some lines => (group.map (fill lines maxLines), [(path, lines.length)])
  | none => (group, [])

/-- Entities with bodies and documentation, file by file, and how many lines the files have. -/
def all (w : Workspace) (maxLines : Nat) (entities : List Entity) : List Entity × LineCounts :=
  let groups := ((entities.map (·.filePath)).eraseDups).map fun p => inFile w maxLines p entities
  (groups.flatMap (·.1), groups.flatMap (·.2))

end Backfill

end CodeAtlas
