import CodeAtlas.Record
import CodeAtlas.Text.Basic

/-!
# Symbols of an index

A symbol is a scheme and a package, separated by spaces, and a path of descriptors. The last descriptor tells what the symbol is: its
suffix is a hash sign for a class, a full stop for a variable, a slash for a module, and round brackets for a function, followed by a
full stop for a method. A name with other characters than usual stands between backquotes.
-/

namespace CodeAtlas

/-- What a symbol says about its declaration. -/
structure Descriptor where
  kind : EntityKind
  name : String
  signature : Option String := none
  deriving DecidableEq, Repr

namespace Descriptor

open Text

/-- The mark around a name with unusual characters, doubled inside such a name. -/
def quoteMark : Char := '\x60'

/-- The text up to the mark that closes a quoted name, and the text after it, given the text after the opening mark. A doubled mark
does not close, unless no mark closes after it. -/
def quotedName? : Text → Option (Text × Text)
  | [] => none
  | [c] => if c = quoteMark then some ([], []) else none
  | c :: d :: r =>
    if c = quoteMark then
      if d = quoteMark then
        match quotedName? r with
        | some (name, after) => some (c :: d :: name, after)
        | none => some ([], d :: r)
      else some ([], d :: r)
    else (quotedName? (d :: r)).map fun p => (c :: p.1, p.2)

/-- A character that can be part of an unquoted name. -/
def isPlain (c : Char) : Bool := c != '/' && c != '#' && c != '.' && c != quoteMark

/-- The names on a path of descriptors, after the next `skip` characters; quoted names with their marks. -/
def components : (skip : Nat) → Text → List Text
  | _, [] => []
  | skip + 1, _ :: r => components skip r
  | 0, c :: r =>
    if isPlain c then (c :: r.takeWhile isPlain) :: components (r.takeWhile isPlain).length r
    else if c = quoteMark then
      match quotedName? r with
      | some (name, _) => (c :: name ++ [c]) :: components (name.length + 1) r
      | none => components 0 r
    else components 0 r

/-- Every doubled mark becomes a single one. -/
def undouble : Text → Text
  | [] => []
  | [c] => [c]
  | c :: d :: r => if c = quoteMark ∧ d = quoteMark then c :: undouble r else c :: undouble (d :: r)

/-- A name without its quotes. -/
def unquote (component : Text) : Text :=
  if component.head? = some quoteMark ∧ component.getLast? = some quoteMark ∧ 2 ≤ component.length then
    undouble (component.drop 1).dropLast
  else component

/-- The last name on a path, empty when there is none. -/
def lastName (path : Text) : Text := ((components 0 path).getLast?.map unquote).getD []

/-- A character that is no round bracket. -/
def notBracket (c : Char) : Bool := c != '(' && c != ')'

/-- A path that ends in brackets: the path before them, the text in them, and whether a full stop follows. -/
def callable? (path : Text) : Option (Text × Text × Bool) :=
  let (isMethod, r) := match path.reverse with
    | '.' :: r => (true, r)
    | r => (false, r)
  match r with
  | ')' :: r =>
    match r.dropWhile notBracket with
    | '(' :: before =>
      if before.contains '\n' then none else some (before.reverse, (r.takeWhile notBracket).reverse, isMethod)
    | _ => none
  | _ => none

/-- A descriptor of the given kind, unless its path has no name. -/
def named (kind : EntityKind) (path : Text) (signature : Text → Option Text) : Option Descriptor :=
  let name := lastName path
  if name.isEmpty then none
  else some { kind, name := String.ofList name, signature := (signature name).map String.ofList }

/-- The kind of what is not callable, by the last character of its path. -/
def suffixKind? (c : Char) : Option EntityKind :=
  if c = '#' then some .class_ else if c = '.' then some .variable_ else if c = '/' then some .module_ else none

/-- The descriptor on a path. Parameters, whose path has brackets inside, are none. -/
def ofPath (path : Text) : Option Descriptor :=
  match callable? path with
  | some (before, inside, isMethod) =>
    if before.all notBracket then
      named (if isMethod then .method else .function) before fun _ => some (before ++ '(' :: inside ++ [')'])
    else none
  | none =>
    (path.getLast?.bind suffixKind?).bind fun kind =>
      named kind path.dropLast fun name => if path.dropLast = name then none else some path.dropLast

/-- The descriptor of a symbol: that of its last word, if there is more than one. -/
def ofSymbol (symbol : String) : Option Descriptor :=
  let words := splitOn ' ' (strip symbol.text)
  if words.length < 2 then none
  else (words.getLast?.filter fun w => !w.isEmpty).bind ofPath

/-- Whether a symbol is local to its file. -/
def isLocal (symbol : String) : Bool := symbol.text.startsWith "local "

end Descriptor

end CodeAtlas
