import CodeAtlas.Path

/-!
# Workspace trees

A workspace is a tree of files, directories and symbolic links, given by the paths of its entries. Looking up a path follows the links
on its way; a path that leads nowhere has no location.
-/

namespace CodeAtlas

/-- What stands at a path. -/
inductive WorkspaceEntry where
  | file (content : List UInt8)
  | directory
  | link (target : String)

/-- A place in a tree: the segments of its path. The empty path is the top of the tree, and two dots lead above it. -/
abbrev Location := List String

/-- The entries of a workspace by their locations. Directories on the way to an entry need not be entries themselves. -/
structure WorkspaceTree where
  entries : List (Location × WorkspaceEntry)

namespace WorkspaceTree

/-- The location that a path names on paper: without empty segments and dots. -/
def plain (path : String) : Location := (Path.segments path).filter fun s => s != "" && s != "."

/-- The tree of some entries by path. -/
def ofEntries (entries : List (String × WorkspaceEntry)) : WorkspaceTree := ⟨entries.map fun e => (plain e.1, e.2)⟩

/-- Whether a location lies at or above the top of the tree. -/
def isAbove (l : Location) : Bool := l.all (· == "..")

/-- The entry at a location, links not followed. -/
def entry? (t : WorkspaceTree) (l : Location) : Option WorkspaceEntry :=
  match t.entries.find? fun e => e.1 == l with
  | some e => some e.2
  | none => if isAbove l || t.entries.any (fun e => l.isPrefixOf e.1) then some .directory else none

/-- The location above another one. -/
def parent (l : Location) : Location := if isAbove l then l ++ [".."] else l.dropLast

/-- Where a path leads from a location. At most `links` symbolic links are followed; an absolute path leads out of the tree. -/
def walk (t : WorkspaceTree) : (links : Nat) → Location → List String → Option Location
  | _, l, [] => some l
  | links, l, s :: ss =>
    match t.entry? l with
    | some .directory =>
      if s = "" ∨ s = "." then walk t links l ss
      else if s = ".." then walk t links (parent l) ss
      else
        match t.entry? (l ++ [s]) with
        | none => none
        | some (.link target) =>
          match links with
          | 0 => none
          | n + 1 => if target.text.startsWith "/" then none else walk t n l (Path.segments target ++ ss)
        | some _ => walk t links (l ++ [s]) ss
    | _ => none
termination_by links _ ss => (links, ss.length)

/-- How many links a look-up follows at most. -/
def mostLinks : Nat := 40

/-- Where a path leads from a location. -/
def locate (t : WorkspaceTree) (base : Location) (path : String) : Option Location :=
  if path.text.startsWith "/" then none else t.walk mostLinks base (plain path)

/-- What a path leads to. -/
def at_ (t : WorkspaceTree) (base : Location) (path : String) : Option WorkspaceEntry :=
  (t.locate base path).bind t.entry?

/-- The names of the entries directly in a directory, in order. -/
def names (t : WorkspaceTree) (l : Location) : List String :=
  ((t.entries.filterMap fun e => if l.isPrefixOf e.1 then e.1[l.length]? else none).eraseDups).mergeSort fun a b => decide (a ≤ b)

end WorkspaceTree

/-- A workspace: a directory of a tree, or nothing when there is no such directory. `tracked` are the paths that version control
lists, if it does. -/
structure Workspace where
  tree : WorkspaceTree
  base : Option Location := some []
  tracked : Option (List String) := none

namespace Workspace

/-- The directory of a tree that a path leads to. -/
def ofTree (tree : WorkspaceTree) (root : String) (tracked : Option (List String) := none) : Workspace :=
  let base := match tree.locate [] root with
    | some l => match tree.entry? l with
      | some .directory => some l
      | _ => none
    | none => none
  { tree, base, tracked }

/-- Where a path of the workspace leads. -/
def locate (w : Workspace) (path : String) : Option Location := w.base.bind fun b => w.tree.locate b path

/-- What a path of the workspace leads to. -/
def at_ (w : Workspace) (path : String) : Option WorkspaceEntry := (w.locate path).bind w.tree.entry?

/-- Whether a path leads to a directory. -/
def isDirectory (w : Workspace) (path : String) : Bool := match w.at_ path with
  | some .directory => true
  | _ => false

/-- Whether a path leads to a file. -/
def isFile (w : Workspace) (path : String) : Bool := match w.at_ path with
  | some (.file _) => true
  | _ => false

/-- The content of the file that a path leads to. -/
def content? (w : Workspace) (path : String) : Option (List UInt8) := match w.at_ path with
  | some (.file bytes) => some bytes
  | _ => none

/-- Whether the last segment of a path is itself a link. -/
def isLink (w : Workspace) (path : String) : Bool :=
  let ss := WorkspaceTree.plain path
  match w.locate (Path.ofSegments ss.dropLast), ss.getLast? with
  | some l, some s => match w.tree.entry? (l ++ [s]) with
    | some (.link _) => true
    | _ => false
  | _, _ => false

/-- The names of the entries directly in a directory of the workspace, in order. -/
def names (w : Workspace) (path : String) : List String := match w.locate path with
  | some l => w.tree.names l
  | none => []

/-- The paths of the files and links at any depth, without those below links. -/
def leaves (w : Workspace) : List String := match w.base with
  | none => []
  | some b => w.tree.entries.filterMap fun e => match e.2 with
    | .directory => none
    | _ => if b.isPrefixOf e.1 && e.1 != b then some (Path.ofSegments (e.1.drop b.length)) else none

end Workspace

end CodeAtlas
