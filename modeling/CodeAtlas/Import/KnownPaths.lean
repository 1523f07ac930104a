import CodeAtlas.Path
import Std.Data.HashMap

/-!
# The paths of a workspace

Imports are resolved against the set of files that a workspace has. Files and directories can be found by their full path or by the
last segments of it; of several that end alike the shortest wins, and of equally long ones the first in order.
-/

namespace CodeAtlas

/-- Shorter paths come first, equally long ones in the order of their code points. -/
def shorterFirst (a b : String) : Bool := decide (a.length < b.length) || (a.length == b.length && decide (a ≤ b))

namespace Path

/-- A list of segments and all that remains after dropping some from its front, the empty list left out. -/
def segmentTails : List String → List (List String)
  | [] => []
  | s :: ss => (s :: ss) :: segmentTails ss

/-- The path and every path that its last segments make up. -/
def tails (p : String) : List String := (segmentTails (segments p)).map ofSegments

/-- The non-empty beginnings of a list of segments that leave out at least the last one. -/
def segmentHeads : List String → List (List String)
  | [] => []
  | [_] => []
  | s :: ss => [s] :: (segmentHeads ss).map (s :: ·)

/-- The directories that a path lies in, the outermost first. -/
def ancestors (p : String) : List String := (segmentHeads (segments p)).map ofSegments

end Path

/-- An index from path tails to the paths that end so, the preferred one first. -/
abbrev TailIndex := Std.HashMap String (List String)

namespace TailIndex

/-- Puts a path into a list of candidates at its place in the order of preference. -/
def insertOrdered (p : String) : List String → List String
  | [] => [p]
  | q :: qs => if shorterFirst p q then p :: q :: qs else q :: insertOrdered p qs

/-- Records a path under one of its tails. -/
def add (index : TailIndex) (tail p : String) : TailIndex :=
  index.insert tail (insertOrdered p (index.getD tail []))

/-- The index of all tails of some paths. -/
def ofPaths (paths : List String) : TailIndex :=
  paths.foldl (fun index p => (Path.tails p).foldl (fun index t => add index t p) index) {}

/-- The preferred path with the given tail. -/
def first? (index : TailIndex) (tail : String) : Option String := (index.getD tail []).head?

end TailIndex

/-- The files of a workspace and the directories they lie in, indexed by the tails of their paths. -/
structure KnownPaths where
  files : List String
  dirs : List String
  fileTails : TailIndex
  dirTails : TailIndex

namespace KnownPaths

/-- The known paths of a list of files. -/
def ofFiles (files : List String) : KnownPaths :=
  let files := files.eraseDups
  let dirs := (files.flatMap Path.ancestors).eraseDups
  { files, dirs, fileTails := TailIndex.ofPaths files, dirTails := TailIndex.ofPaths dirs }

/-- No known paths. -/
def empty : KnownPaths := ofFiles []

/-- Whether a path is a file of the workspace. -/
def hasFile (k : KnownPaths) (p : String) : Bool := k.files.contains p

/-- Whether a path is a directory of the workspace. -/
def hasDir (k : KnownPaths) (p : String) : Bool := k.dirs.contains p

/-- The first of some candidates that is a file. -/
def firstFile? (k : KnownPaths) (candidates : List String) : Option String := candidates.find? k.hasFile

/-- The preferred file whose path ends in the module path with the first extension that finds one. -/
def lookup (k : KnownPaths) (modulePath : String) (extensions : List String) : Option String :=
  extensions.findSome? fun e => k.fileTails.first? (modulePath ++ e)

/-- The preferred directory whose path ends in the given segments. -/
def lookupDir (k : KnownPaths) (tail : String) : Option String := k.dirTails.first? tail

/-- What follows the directory in a path below it; everything lies below the empty path. -/
def below? (dir path : String) : Option Text :=
  if dir.isEmpty then some path.text
  else if path.text.startsWith (dir ++ "/") then some (path.text.drop (dir.length + 1))
  else none

/-- The files directly in a directory, in order. -/
def filesIn (k : KnownPaths) (dir : String) : List String :=
  (k.files.filter fun p => (below? dir p).any fun r => !r.contains '/').mergeSort fun a b => decide (a ≤ b)

end KnownPaths

end CodeAtlas
