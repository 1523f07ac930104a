import CodeAtlas.Pattern.Match
import CodeAtlas.Source.Header
import CodeAtlas.Text.Lines

/-!
# Where declarations end

The body of a declaration ends with its closing brace, the end of its statement, the end of its indentation or its `end` keyword.
Each search is given the lines of the file and the number of the line where the declaration begins, and answers with the number of
its last line.
-/

namespace CodeAtlas

open Text

/-- How the end of a declaration is found. -/
inductive Block where
  | brace
  | statement
  | indent
  | endKeyword
  /-- The declaration is a single line. -/
  | line
  deriving DecidableEq, Repr

namespace Block

/-- How deep a scan for a closing brace is, and whether it has seen an opening one. -/
structure BraceScan where
  depth : Int := 0
  opened : Bool := false

/-- Reads a line of code. The declaration ends on it when the first brace is closed, or at a semicolon before any brace; otherwise
the state after the line is given. -/
def BraceScan.line (s : BraceScan) : Text → Option BraceScan
  | [] => some s
  | c :: r =>
    if c = '{' then BraceScan.line { depth := s.depth + 1, opened := true } r
    else if c = '}' then
      if s.opened ∧ s.depth - 1 ≤ 0 then none else BraceScan.line { s with depth := s.depth - 1 } r
    else if c = ';' ∧ !s.opened then none
    else BraceScan.line s r

/-- The line that closes the first brace at or after `line`, the line of a semicolon before any brace, the last line when the brace
is never closed, or `line` itself when there is none of these. What the code of a line is, is told by `code`. -/
def braceEndBy (code : Text → Text) (lines : List Text) (line : Nat) : Nat :=
  go {} line (lines.drop (line - 1))
where
  /-- `s` is the state before the line with number `at_`, the first of the rest. -/
  go (s : BraceScan) (at_ : Nat) : List Text → Nat
    | [] => if s.opened then lines.length else line
    | l :: ls =>
      match s.line (code l) with
      | none => at_
      | some s' => go s' (at_ + 1) ls

/-- The line on which a declaration with braces ends, its lines being code without noise. -/
def braceEnd (noise : Noise) (lines : List Text) (line : Nat) : Nat := braceEndBy noise.strip lines line

/-- What a line of an unfinished statement ends in. -/
def openEnds : List String := ["=", "|", "&", ",", "=>", "(", "+", "?", ":"]

/-- What a line that goes on with a statement begins with. -/
def continuations : List String := ["|", "&", ".", "?", ":", "=>"]

/-- The line on which the statement that begins at `line` ends: the first with balanced brackets that has a semicolon, or that
neither ends open nor is gone on with on the next line with text. -/
def statementEnd (noise : Noise) (lines : List Text) (line : Nat) : Nat :=
  go 0 line (lines.drop (line - 1))
where
  /-- `depth` brackets are open before the line with number `at_`, the first of the rest. -/
  go (depth : Int) (at_ : Nat) : List Text → Nat
    | [] => lines.length
    | l :: ls =>
      let code := strip (noise.strip l)
      let depth := depth + Header.balance "([\x7b" ")]\x7d" code
      let next := ((ls.map strip).find? fun t => !t.isEmpty).getD []
      if depth ≤ 0 ∧ (code.contains ';' ∨ ¬ (code.endsWithAny openEnds ∨ next.startsWithAny continuations)) then at_
      else go depth (at_ + 1) ls

/-- The last line of code that is indented deeper than the header at `line`, or the last line of the header. Blank lines and comments
do not matter. -/
def indentEnd (noise : Noise) (lines : List Text) (line : Nat) : Nat :=
  let base := Text.indent ((lines.drop (line - 1)).headD [])
  let header := Header.lastLine noise lines line
  go base header (header + 1) (lines.drop header)
where
  /-- `last` is the last line found so far, `at_` the number of the first of the rest. -/
  go (base last at_ : Nat) : List Text → Nat
    | [] => last
    | l :: ls =>
      let t := strip l
      if t.isEmpty || t.startsWith "#" then go base last (at_ + 1) ls
      else if Text.indent l ≤ base then last
      else go base at_ (at_ + 1) ls

namespace EndKeyword

open Pattern

/-- A statement that opens a block by its first word. -/
def opener : Pattern :=
  start ++ blanks ++ opt (oneOfWords ["private", "protected", "public"] ++ gap) ++
    oneOfWords ["class", "module", "def", "if", "unless", "while", "until", "case", "begin", "for"] ++ edge

/-- A block whose value is assigned. -/
def assignedOpener : Pattern := "=" ++ blanks ++ oneOfWords ["if", "unless", "case", "begin"] ++ edge

/-- A block passed to a call, at the end of a statement. -/
def doOpener : Pattern := edge ++ "do" ++ edge ++ opt (blanks ++ "|" ++ any0 (except "|") ++ "|") ++ blanks ++ ending

/-- The keyword that closes a block, not the name of a method. -/
def closer : Pattern := notAfter (wordOr ".") ++ "end" ++ edge

/-- A method written as an equation, which has no block. -/
def endlessMethod : Pattern :=
  start ++ blanks ++ "def" ++ gap ++ some1 (wordOr ".?!") ++ blanks ++ opt ("(" ++ any0 (except ")") ++ ")") ++ blanks ++ "=" ++
    one (except "=~")

/-- How many blocks a statement opens, less those it closes. -/
def statementDelta (s : Text) : Int :=
  (if (opener.matchStart? s).isSome || assignedOpener.occursIn s || doOpener.occursIn s then 1 else 0) - (closer.findAll s).length

/-- How many blocks a line opens, less those it closes. -/
def delta (line : Text) : Int :=
  if (endlessMethod.matchStart? line).isSome then 0
  else ((splitOn ';' (Noise.hash.strip line)).map statementDelta).foldl (· + ·) 0

end EndKeyword

/-- The line of the `end` that closes the block opened at `line`, or the last line. -/
def endKeywordEnd (lines : List Text) (line : Nat) : Nat :=
  let rest := lines.drop (line - 1)
  if (EndKeyword.endlessMethod.matchStart? (rest.headD [])).isSome then line else go 0 line rest
where
  /-- `depth` blocks are open before the line with number `at_`, the first of the rest. -/
  go (depth : Int) (at_ : Nat) : List Text → Nat
    | [] => lines.length
    | l :: ls =>
      let depth := depth + EndKeyword.delta l
      if depth ≤ 0 then at_ else go depth (at_ + 1) ls

/-- The number of the last line of a declaration that begins at `line`. -/
def endLine (b : Block) (noise : Noise) (lines : List Text) (line : Nat) : Nat :=
  match b with
  | brace => braceEnd noise lines line
  | statement => statementEnd noise lines line
  | indent => indentEnd noise lines line
  | endKeyword => endKeywordEnd lines line
  | Block.line => line

end Block

end CodeAtlas
