import CodeAtlas.Text.Basic

/-!
# Slash-separated paths

Workspace paths are relative and separated by slashes. Directory and base name, joining, normal form and extension follow the
usual rules for such paths; none of them looks at a file system.
-/

namespace CodeAtlas.Path

open Text

/-- The segments of a path: the pieces between its slashes. -/
def segments (p : String) : List String := (splitOn '/' p.text).map String.ofList

/-- Segments with slashes between them. -/
def ofSegments (ss : List String) : String := "/".intercalate ss

namespace PathAux

/-- The text up to and including the last slash, and the text after it. -/
def splitLast (p : Text) : Text × Text :=
  match cutLast? ['/'] p with
  | some (a, b) => (a ++ ['/'], b)
  | none => ([], p)

/-- One step of normalisation over a stack of segments, top first: empty segments and dots vanish, two dots cancel the segment
before them, and are kept where a relative path climbs above its start. -/
def climb (rooted : Bool) (stack : List Text) (s : Text) : List Text :=
  if s = [] ∨ s = ['.'] then stack
  else if s = ['.', '.'] then
    match stack with
    | [] => if rooted then [] else [s]
    | top :: below => if top = ['.', '.'] then s :: stack else below
  else s :: stack

end PathAux

/-- The part of a path before its last segment, without the slashes in between. -/
def dirname (p : String) : String :=
  let head := (PathAux.splitLast p.text).1
  if head.all (· == '/') then String.ofList head else String.ofList (trimRight (· == '/') head)

namespace PathAux

/-- A path's directory, the directory of that, and so on up to the empty path, at most `n` of them. -/
def climbAll : (n : Nat) → String → List String
  | 0, _ => []
  | n + 1, p =>
    let d := dirname p
    d :: if d.isEmpty then [] else climbAll n d

end PathAux

/-- The directories above a relative path, the nearest first and the root of the workspace last. -/
def ancestry (p : String) : List String := PathAux.climbAll (p.length + 1) p

/-- The last segment of a path. -/
def basename (p : String) : String := String.ofList (PathAux.splitLast p.text).2

/-- Appends a path to another; an absolute one replaces it. -/
def join (a b : String) : String :=
  if b.text.startsWith "/" then b
  else if a.isEmpty || a.text.endsWith "/" then a ++ b
  else a ++ "/" ++ b

/-- Appends several paths, one after the other. -/
def joinAll (a : String) (bs : List String) : String := bs.foldl join a

/-- The path without empty segments, dots and segments that are climbed out of again; `.` when nothing is left. -/
def normalize (p : String) : String :=
  let t := p.text
  if t.isEmpty then "." else
  let root := if !t.startsWith "/" then "" else if t.startsWith "//" && !t.startsWith "///" then "//" else "/"
  let kept := ((splitOn '/' t).foldl (PathAux.climb (root != "")) []).reverse
  let q := root ++ ofSegments (kept.map String.ofList)
  if q.isEmpty then "." else q

/-- The path without its extension, and the extension with its dot. Dots that a file name begins with start none. -/
def splitExtension (p : String) : String × String :=
  let (dir, base) := PathAux.splitLast p.text
  match cutLast? ['.'] base with
  | some (stem, ext) =>
    if stem.all (· == '.') then (p, "") else (String.ofList (dir ++ stem), String.ofList ('.' :: ext))
  | none => (p, "")

/-- The extension of a path with its dot, empty when there is none. -/
def extension (p : String) : String := (splitExtension p).2

end CodeAtlas.Path
