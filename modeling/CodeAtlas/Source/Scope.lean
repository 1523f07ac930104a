import CodeAtlas.Text.Basic

/-!
# Scopes between braces

While a file is read line by line, the declarations whose bodies enclose the current line are kept on a stack, each with the brace
depth before its header. A declaration is entered at its header and left when the depth falls back.
-/

namespace CodeAtlas

/-- A declaration under way. -/
structure Scope (α : Type) where
  decl : α
  /-- The brace depth before the header. -/
  outer : Int
  /-- Whether the body's brace has been seen. -/
  opened : Bool := false

/-- The declarations around the current line, the innermost first, and the number of open braces. -/
structure ScopeStack (α : Type) where
  depth : Int := 0
  scopes : List (Scope α) := []

namespace ScopeStack

variable {α : Type}

/-- The declaration whose body directly contains the current line. -/
def owner (s : ScopeStack α) : Option α :=
  match s.scopes with
  | top :: _ => if s.depth = top.outer + 1 then some top.decl else none
  | [] => none

/-- The declarations around the current line, the outermost first. -/
def enclosing (s : ScopeStack α) : List α := (s.scopes.map Scope.decl).reverse

/-- Enters a declaration at its header. -/
def push (s : ScopeStack α) (decl : α) : ScopeStack α := { s with scopes := { decl, outer := s.depth } :: s.scopes }

/-- Leaves the scopes that a line ends: those whose body was open and is not any more, and those that a semicolon ends before their
body. The first scope that stays keeps the ones below it. -/
def settle (depth : Int) (semicolon : Bool) : List (Scope α) → List (Scope α)
  | [] => []
  | top :: below =>
    if top.outer < depth then { top with opened := true } :: below
    else if top.opened || semicolon then settle depth semicolon below
    else top :: below

/-- Reads the braces of a line of code. -/
def advance (s : ScopeStack α) (code : Text) : ScopeStack α :=
  let depth := s.depth + ((code.count '{' : Int) - code.count '}')
  { depth, scopes := settle depth (code.contains ';') s.scopes }

end ScopeStack

end CodeAtlas
