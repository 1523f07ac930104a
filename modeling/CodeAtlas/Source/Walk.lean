import CodeAtlas.Source.Scan

/-!
# Walking a file with braces

The lines of a file are visited from top to bottom. A line with code is shown to a visitor as the header that begins on it; after
that the braces of the line are counted, so that the visitor sees the scopes as they are at the start of the line.
-/

namespace CodeAtlas

open Text

/-- What a walk has gathered: the scan, the open scopes, and notes of the language's own. -/
structure Walk (ν : Type) where
  scan : FileScan
  scopes : ScopeStack Declaration := {}
  notes : ν

namespace Walk

variable {ν : Type}

/-- The declaration whose body directly contains the current line. -/
def owner (w : Walk ν) : Option Declaration := w.scopes.owner

/-- Records a declaration; the recorded one is given back. -/
def declare (w : Walk ν) (d : Declaration) : Walk ν × Declaration :=
  let (scan, d) := w.scan.declare d
  ({ w with scan }, d)

/-- Records an edge. -/
def link (w : Walk ν) (fromId toId : String) (kind : EdgeKind) : Walk ν := { w with scan := w.scan.link fromId toId kind }

/-- Records edges of one kind from one entity. -/
def linkAll (w : Walk ν) (fromId : String) (toIds : List String) (kind : EdgeKind) : Walk ν :=
  toIds.foldl (fun w t => w.link fromId t kind) w

/-- Records that a declaration belongs to another. -/
def memberOf (w : Walk ν) (member owner : Declaration) : Walk ν := { w with scan := w.scan.memberOf member owner }

/-- Enters the scope of a declaration. -/
def push (w : Walk ν) (d : Declaration) : Walk ν := { w with scopes := w.scopes.push d }

/-- Counts the braces of a line. -/
def advance (w : Walk ν) (code : Text) : Walk ν := { w with scopes := w.scopes.advance code }

/-- Shows a visitor the header that begins with the first of the lines, unless there is no code on it. -/
def visitLine (skipHash : Bool) (visit : Text → Nat → Walk ν → Walk ν) (lines : List Text) (line : Nat) (w : Walk ν) : Walk ν :=
  let trimmed := strip (lines.headD [])
  if trimmed.isEmpty || Header.isComment trimmed || (skipHash && trimmed.startsWith "#") then w
  else
    let code := w.scan.noise.strip (lines.headD [])
    visit (if code.contains '(' then Header.joined w.scan.noise lines else trimmed) line w

/-- Visits the lines, the first of which has the number `line`. Where `skipHash` is set, lines that begin with a hash sign are no
code. -/
def visitLines (skipHash : Bool) (visit : Text → Nat → Walk ν → Walk ν) : (line : Nat) → List Text → Walk ν → Walk ν
  | _, [], w => w
  | line, l :: ls, w =>
    visitLines skipHash visit (line + 1) ls ((visitLine skipHash visit (l :: ls) line w).advance (w.scan.noise.strip l))

/-- Visits all lines of a file. -/
def run (skipHash : Bool) (visit : Text → Nat → Walk ν → Walk ν) (scan : FileScan) (notes : ν) : Walk ν :=
  visitLines skipHash visit 1 scan.lines { scan, notes }

end Walk

end CodeAtlas
