import CodeAtlas.Import.KnownPaths
import CodeAtlas.Language.Extension
import CodeAtlas.Text.Utf8
import CodeAtlas.Workspace.Ignore
import CodeAtlas.Workspace.Tree

/-!
# Scanning a workspace

The files of a workspace, in the order of their paths. Version control knows best which files belong to it; without it all directories
are walked and the ignore rules say what to leave out.
-/

namespace CodeAtlas

/-- A file found in a workspace. -/
structure ScannedFile where
  path : String
  extension : String

namespace ScannedFile

/-- The file at a path; its extension is in lower case. -/
def ofPath (path : String) : ScannedFile := { path, extension := fileExtension path }

end ScannedFile

namespace Workspace

/-- The ignore rules of a workspace. Bytes of the ignore file that are no text count as replacement characters. -/
def ignoreRules (w : Workspace) (extra : List String) : IgnoreRules :=
  .ofWorkspace extra ((w.content? ".gitignore").map Utf8.decodeLossy)

/-- Whether a walk that leaves out ignored directories comes to a path and does not leave it out. -/
def isWalked (rules : IgnoreRules) (path : String) : Bool :=
  !(Path.ancestors path).any (fun d => rules.isIgnored (d ++ "/")) && !rules.isIgnored path

/-- The paths of a workspace before those are dropped that are no files. -/
def candidates (w : Workspace) : List String :=
  match w.tracked with
  | some paths => paths.filter fun p => !p.isEmpty
  | none =>
    let rules := w.ignoreRules []
    w.leaves.filter (isWalked rules)

/-- The files of a workspace. -/
def scan (w : Workspace) : List ScannedFile :=
  let paths := (w.candidates.eraseDups).mergeSort fun a b => decide (a ≤ b)
  (paths.filter fun p => !IgnoreRules.inIgnoredDirectory p.text && !w.isLink p && w.isFile p).map .ofPath

end Workspace

end CodeAtlas
