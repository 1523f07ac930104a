import CodeAtlas.Text.Basic

/-!
# Lines without strings and comments

Delimiters are counted in code only. A line is therefore stripped of its noise first: string literals shrink to two quotes, block
comments to a blank, and what follows a line comment's mark is cut off. Literals are found before comments.
-/

namespace CodeAtlas

open Text

namespace NoiseAux

/-- Where in a line a scan for literals stands. -/
inductive LiteralMode where
  | code
  | inside (quote : Char)
  | escaped (quote : Char)

/-- Whether the text after an opening quote closes the literal. A backslash hides the character after it, except a line feed. -/
def closes (quote : Char) : Text → Bool
  | [] => false
  | ['\\'] => false
  | '\\' :: c :: r => if c = '\n' then false else closes quote r
  | c :: r => c = quote || closes quote r

/-- Whether the text after a single quote is one character, or a backslash and one character, and a closing quote. -/
def closesCharacter : Text → Bool
  | '\\' :: c :: '\'' :: _ => c ≠ '\n'
  | c :: '\'' :: _ => c ≠ '\'' && c ≠ '\\'
  | _ => false

/-- The text with every literal replaced by two double quotes. `opens` tells whether a quote with the text after it begins one. -/
def blankLiterals (opens : Char → Text → Bool) : LiteralMode → Text → Text
  | _, [] => []
  | .code, c :: r =>
    if opens c r then '"' :: '"' :: blankLiterals opens (.inside c) r else c :: blankLiterals opens .code r
  | .inside q, c :: r =>
    if c = '\\' then blankLiterals opens (.escaped q) r
    else if c = q then blankLiterals opens .code r
    else blankLiterals opens (.inside q) r
  | .escaped q, _ :: r => blankLiterals opens (.inside q) r

/-- Literals in double quotes, single quotes or backquotes. -/
def opensCLike (c : Char) (r : Text) : Bool := (c = '"' || c = '\'' || c = '\x60') && closes c r

/-- String literals in double quotes and character literals in single ones. -/
def opensRust (c : Char) (r : Text) : Bool := (c = '"' && closes c r) || (c = '\'' && closesCharacter r)

/-- Where in a line a scan for block comments stands. -/
inductive CommentMode where
  | code
  | opening
  | inside
  | closing

/-- Whether the text after the mark of a block comment closes it on the same line. -/
def closesComment : Text → Bool
  | '*' :: '/' :: _ => true
  | c :: r => c ≠ '\n' && closesComment r
  | [] => false

/-- The text with every block comment that ends on its line replaced by a blank. -/
def blankComments : CommentMode → Text → Text
  | _, [] => []
  | .code, c :: r =>
    if c = '/' && r.head? = some '*' && closesComment (r.drop 1) then ' ' :: blankComments .opening r
    else c :: blankComments .code r
  | .opening, _ :: r => blankComments .inside r
  | .inside, c :: r =>
    if c = '*' && r.head? = some '/' then blankComments .closing r else blankComments .inside r
  | .closing, _ :: r => blankComments .code r

end NoiseAux

/-- What counts as noise in a family of languages. -/
inductive Noise where
  /-- Three styles of quotes, block comments, and line comments that begin with two slashes. -/
  | cLike
  /-- Like that, with single quotes around single characters only. -/
  | rust
  /-- Three styles of quotes, and line comments that begin with a hash sign. -/
  | hash
  /-- Like the first, and line comments that begin with a hash sign not followed by a bracket. -/
  | php
  deriving DecidableEq, Repr

namespace Noise

open NoiseAux

/-- The code of a line of C-like text. -/
def stripCLike (line : Text) : Text :=
  (blankComments .code (blankLiterals opensCLike .code line)).before "//"

/-- The code of a line: the line without its noise. -/
def strip : Noise → Text → Text
  | cLike, line => stripCLike line
  | rust, line => (blankComments .code (blankLiterals opensRust .code line)).before "//"
  | hash, line => (blankLiterals opensCLike .code line).before "#"
  | php, line =>
    let code := stripCLike line
    match cut? ['#'] code with
    | some (b, a) => if a.startsWith "[" then code else b
    | none => code

end Noise

end CodeAtlas
