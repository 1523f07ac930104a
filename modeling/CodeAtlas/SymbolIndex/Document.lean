import CodeAtlas.SymbolIndex.Wire
import CodeAtlas.Text.Utf8

/-!
# Documents of a symbol index

An index holds one document per source file, with the places where symbols occur. A malformed document is left out; where the index
itself breaks off, the documents before remain.
-/

namespace CodeAtlas

/-- An occurrence of a symbol. A range is a start line, a start column, an end line and an end column; on a single line the end line
is left out. Lines count from zero. -/
structure Occurrence where
  range : List Nat
  symbol : String
  roles : Nat := 0
  /-- The range of the whole declaration, where one is given. -/
  enclosing : List Nat := []
  deriving DecidableEq, Repr

/-- The occurrences of symbols in a file. -/
structure Document where
  path : String
  occurrences : List Occurrence
  deriving DecidableEq, Repr

namespace Occurrence

/-- Whether the symbol is defined here. -/
def isDefinition (o : Occurrence) : Bool := o.roles % 2 == 1

/-- The line, from one, on which the occurrence begins. -/
def startLine (o : Occurrence) : Nat := o.range.headD 0 + 1

/-- The line, from one, on which the declaration or else the occurrence ends. -/
def endLine (o : Occurrence) : Nat :=
  let span := if 3 ≤ o.enclosing.length then o.enclosing else o.range
  max ((if 4 ≤ span.length then span.getD 2 0 else span.headD 0) + 1) o.startLine

open Wire

/-- Reads a field of an occurrence. Unknown fields are passed over; of several of one number the last counts. -/
def readField (o : Occurrence) (f : Field) : Except Malformed Occurrence :=
  match f.number, f.value with
  | 1, .window w => (numbers w).map fun ns => { o with range := ns }
  | 2, .window w => .ok { o with symbol := String.ofList (Utf8.decodeLossy w.bytes) }
  | 4, .number n => .ok { o with roles := n }
  | 7, .window w => (numbers w).map fun ns => { o with enclosing := ns }
  | _, _ => .ok o

/-- The occurrence in a window; none without a symbol or with a range too short. -/
def decode (w : Window) : Except Malformed (Option Occurrence) :=
  let fs := fields w
  match fs.read.foldlM readField { range := [], symbol := "" }, fs.problem with
  | .error e, _ => .error e
  | .ok _, some e => .error e
  | .ok o, none => .ok (if o.symbol.isEmpty || decide (o.range.length < 3) then none else some o)

end Occurrence

namespace Document

open Wire

/-- Reads a field of a document. -/
def readField (d : Document) (f : Field) : Except Malformed Document :=
  match f.number, f.value with
  | 2, .window w => (Occurrence.decode w).map fun o => { d with occurrences := d.occurrences ++ o.toList }
  | 4, .window w => .ok { d with path := String.ofList (Utf8.decodeLossy w.bytes) }
  | _, _ => .ok d

/-- The document in a window. -/
def decode (w : Window) : Except Malformed Document :=
  let fs := fields w
  match fs.read.foldlM readField { path := "", occurrences := [] }, fs.problem with
  | .error e, _ => .error e
  | .ok _, some e => .error e
  | .ok d, none => .ok d

/-- The document that a field of an index holds, if it is well formed and has a path. -/
def ofField (f : Field) : Option Document :=
  match f.number, f.value with
  | 2, .window w =>
    match decode w with
    | .ok d => if d.path.isEmpty then none else some d
    | .error _ => none
  | _, _ => none

/-- The documents of an index. -/
def decodeAll (index : List UInt8) : List Document := (fields ⟨0, index⟩).read.filterMap ofField

end Document

end CodeAtlas
