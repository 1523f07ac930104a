import CodeAtlas.Pattern.Match
import CodeAtlas.Text.Lines

/-!
# Ignore rules

Which paths of a workspace are left out. A rule is a line of an ignore file: a path pattern, negated or not, whose stars stand for
parts of a name or for any directories. The last rule that fits a path decides; directories that hold no sources are always left out.
-/

namespace CodeAtlas

/-- What the pattern of a rule fits. -/
inductive IgnoreShape where
  /-- Every path but the empty one. -/
  | everything
  /-- Every path that lies in a directory. -/
  | nested
  /-- The paths in which the pattern occurs. -/
  | fitting (pattern : Pattern)

/-- A line of an ignore file. -/
structure IgnoreRule where
  negated : Bool
  shape : IgnoreShape

namespace IgnoreShape

/-- Whether a path fits. -/
def fits (path : Text) : IgnoreShape → Bool
  | everything => !path.isEmpty
  | nested => path.contains '/'
  | fitting p => (p.search? path).isSome

end IgnoreShape

namespace GlobAux

/-- Whether a character is one of a bracket set: characters and ranges of them. -/
def inSet (c : Char) : Text → Bool
  | [] => false
  | a :: '-' :: b :: r => (decide (a ≤ c) && decide (c ≤ b)) || inSet c r
  | a :: r => c == a || inSet c r

/-- The bracket set that follows an opening bracket: whether it is negated, its text, and how many characters it takes up with the
closing bracket. A closing bracket at its beginning belongs to it. -/
def bracket? (t : Text) : Option (Bool × Text × Nat) :=
  let (negated, body) := match t with
    | '!' :: r => (true, r)
    | '^' :: r => (true, r)
    | _ => (false, t)
  let head := if body.head? = some ']' then 1 else 0
  let set := body.take head ++ (body.drop head).takeWhile (· != ']')
  if set.length = body.length then none
  else some (negated, set, (if negated then 1 else 0) + set.length + 1)

/-- The pattern of a path segment; none when a bracket is not closed or nothing follows a backslash. `skip` counts characters that
have been read already. -/
def segment? : (skip : Nat) → Text → Option Pattern
  | _, [] => some .nothing
  | skip + 1, _ :: r => segment? skip r
  | 0, '*' :: r => (segment? 0 r).map fun p => .many (· != '/') false ++ p
  | 0, '?' :: r => (segment? 0 r).map fun p => .one (· != '/') ++ p
  | 0, '[' :: r => do
    let (negated, set, n) ← bracket? r
    let p ← segment? n r
    return .one (fun c => inSet c set != negated) ++ p
  | 0, '\\' :: r =>
    match r with
    | [] => none
    | c :: _ => (segment? 1 r).map fun p => .one (· == c) ++ p
  | 0, c :: r => (segment? 0 r).map fun p => .one (· == c) ++ p

/-- Any text on one line. -/
def anything : Pattern := .some1 (· != '\n')

/-- The pattern of the segments after the first one; `slash` says whether the next name follows a slash. -/
def rest? : (slash : Bool) → List Text → Option Pattern
  | _, [] => some .nothing
  | slash, s :: ss =>
    if s = ['*', '*'] then
      if ss.isEmpty then some "/"
      else (rest? true ss).map fun p => .opt ("/" ++ anything) ++ p
    else do
      let name ← if s = ['*'] then some (.some1 (· != '/')) else segment? 0 s
      let p ← if ss.isEmpty then some ("/" <|> Pattern.ending) else rest? true ss
      return (if slash then Pattern.lit "/" else .nothing) ++ name ++ p

/-- The pattern of a whole path. -/
def path? : List Text → Option Pattern
  | ['*', '*'] :: s :: ss => (rest? false (s :: ss)).map fun p => Pattern.start ++ .opt (anything ++ "/") ++ p
  | ss => (rest? false ss).map fun p => Pattern.start ++ p

/-- One of several adjacent double stars is enough. -/
def collapse : List Text → List Text
  | ['*', '*'] :: r => ['*', '*'] :: (collapse r).dropWhile (· == ['*', '*'])
  | s :: r => s :: collapse r
  | [] => []

/-- The segments of a pattern. One that begins with a slash, or has a slash inside, is bound to the top directory; any other may begin
in any directory. One that ends in a slash is about all that a directory holds. -/
def segments (pattern : Text) : List Text :=
  let ss := Text.splitOn '/' pattern
  let ss := match ss with
    | [] :: r => r
    | [s] => if s = ['*', '*'] then [s] else [['*', '*'], s]
    | [s, []] => if s = ['*', '*'] then [s, []] else [['*', '*'], s, []]
    | _ => ss
  let ss := if ss.getLast? = some [] then ss.dropLast ++ [['*', '*']] else ss
  collapse ss

end GlobAux

namespace IgnoreRule

/-- A line without the blanks at its end, unless the last one is escaped. -/
def trimmed (line : Text) : Text := if line.endsWith "\\ " then line else Text.trimRight Text.isBlank line

/-- What a pattern fits. -/
def shape? (pattern : Text) : Option IgnoreShape :=
  match GlobAux.segments pattern with
  | [] => none
  | [['*', '*']] => some (if pattern.endsWith "/" then .nested else .everything)
  | [['*', '*'], ['*']] => some .everything
  | [['*', '*'], ['*'], ['*', '*']] => some .nested
  | ss => (GlobAux.path? ss).map .fitting

/-- The rule of a line; empty lines, comments and malformed patterns are no rules. -/
def ofLine? (line : Text) : Option IgnoreRule :=
  match trimmed line with
  | [] => none
  | '#' :: _ => none
  | ['/'] => none
  | '!' :: p => (shape? p).map (⟨true, ·⟩)
  | p => (shape? p).map (⟨false, ·⟩)

end IgnoreRule

/-- Rules in the order in which they were given. -/
abbrev IgnoreRules := List IgnoreRule

namespace IgnoreRules

/-- Directories that are left out at any depth: version control, dependencies, output of builds and caches of tools. -/
def alwaysIgnored : List String :=
  [".git", ".hg", ".svn", "node_modules", "vendor", ".venv", "venv", "dist", "build", "target", "out", ".next", ".turbo", "coverage",
   ".cache", "__pycache__", ".mypy_cache", ".pytest_cache", ".ruff_cache", ".tox", ".nox", ".idea", ".vscode"]

/-- Files that are left out unless a later rule says otherwise. -/
def defaultFiles : List String := ["*.pyc", "*.pyo", "*.swp", "*.scip", "Thumbs.db", "Desktop.ini", ".DS_Store"]

/-- The rules that hold in every workspace. -/
def defaults : List String := alwaysIgnored.map (· ++ "/") ++ defaultFiles

/-- The rules of some lines. -/
def ofLines (lines : List Text) : IgnoreRules := lines.filterMap IgnoreRule.ofLine?

/-- The rules of a workspace: those that always hold, further ones, and those of its ignore file. -/
def ofWorkspace (extra : List String) (ignoreFile : Option Text) : IgnoreRules :=
  ofLines ((defaults ++ extra).map String.text ++ (ignoreFile.map Text.listLines).getD [])

/-- A path as the rules see it: without one slash, or one dot and slash, at its beginning. -/
def subject (path : Text) : Text :=
  match path with
  | '/' :: r => r
  | '.' :: '/' :: r => r
  | _ => path

/-- Whether the last rule that fits leaves the path out. -/
def leaveOut (rules : IgnoreRules) (path : Text) : Bool :=
  match rules.reverse.find? fun r => r.shape.fits (subject path) with
  | some r => !r.negated
  | none => false

/-- Whether a path lies in a directory that is always left out. -/
def inIgnoredDirectory (path : Text) : Bool :=
  ((Text.splitOn '/' path).dropLast.map String.ofList).any alwaysIgnored.contains

/-- Whether a path is left out. A path that ends in a slash is a directory. -/
def isIgnored (rules : IgnoreRules) (path : String) : Bool :=
  inIgnoredDirectory path.text || leaveOut rules path.text

end IgnoreRules

end CodeAtlas
