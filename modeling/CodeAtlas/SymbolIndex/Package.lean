import CodeAtlas.SymbolIndex.Indexer
import CodeAtlas.SymbolIndex.Resolve
import CodeAtlas.Workspace.Tree

/-!
# The index of a package

An external tool is run in the directory of a package and leaves an index behind. Whatever goes wrong, a missing tool, a package that is
not of its kind, a run that fails or does not end, leaves the package without an index.
-/

namespace CodeAtlas

/-- What running a tool in a directory comes to. -/
inductive ToolRun where
  /-- The tool is not installed. -/
  | missing
  /-- The tool could not be started, failed, or did not end in time. -/
  | failed
  /-- The tool ended well and left an index, unless it removed the file. -/
  | finished (index : Option (List UInt8))

/-- The tools of a machine: what each comes to in a directory. -/
abbrev Toolbox := (tool : String) → (directory : Location) → ToolRun

namespace Indexer

/-- Whether a directory has one of the files that packages of the language are known by. -/
def isAtHome (i : Indexer) (tree : WorkspaceTree) (directory : Location) : Bool :=
  i.markers.any fun m => (tree.at_ directory m).isSome

/-- The directory of a package of the language, if it is one. -/
def home? (i : Indexer) (w : Workspace) (root : String) : Option Location :=
  match w.locate root with
  | some l => if w.isDirectory root && i.isAtHome w.tree l then some l else none
  | none => none

/-- What the index of a package says. The paths in it are taken from the directory of the package. -/
def indexPackage (i : Indexer) (tools : Toolbox) (w : Workspace) (root repoId : String) : IndexedSymbols :=
  match i.home? w root with
  | none => {}
  | some l => match tools i.tool l with
    | .finished (some bytes) => .ofIndex { repoId, language := i.language, root } bytes
    | _ => {}

end Indexer

end CodeAtlas
