import CodeAtlas.Text.Basic

/-!
# Lines

A source text is read as lines ended by a line feed, a carriage return, or both. A last line without text is not a line.
-/

namespace CodeAtlas.Text

/-- Every line end becomes a single line feed. -/
def unifyLineEnds : Text → Text
  | [] => []
  | '\r' :: '\n' :: r => '\n' :: unifyLineEnds r
  | c :: r => (if c = '\r' then '\n' else c) :: unifyLineEnds r

/-- Drops the last piece when it is empty. -/
def dropEmptyLast (ps : List Text) : List Text := if ps.getLast? = some [] then ps.dropLast else ps

/-- The lines of a source text. -/
def lines (t : Text) : List Text := dropEmptyLast (splitOn '\n' (unifyLineEnds t))

/-- The characters that end a line of a plain text list: besides the usual ones the vertical tab, the form feed, the information
separators, the next-line control and the two Unicode separators. -/
def listLineEnds : List Char :=
  ['\n', '\r', '\x0B', '\x0C', '\x1C', '\x1D', '\x1E', '\u0085', '\u2028', '\u2029']

/-- The lines of a plain text list, which knows more line ends than source text does. -/
def listLines (t : Text) : List Text :=
  dropEmptyLast (splitOn '\n' ((unifyLineEnds t).map fun c => if listLineEnds.contains c then '\n' else c))

/-- The number, from one, of the line that a text ending here would be on: one more than its line feeds. -/
def lineAfter (before : Text) : Nat := before.count '\n' + 1

/-- How many blanks stand in front of a line. -/
def indent (line : Text) : Nat := (line.takeWhile isBlank).length

end CodeAtlas.Text
