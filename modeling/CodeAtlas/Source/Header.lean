import CodeAtlas.Source.Noise

/-!
# Headers of declarations

A declaration's header may run over several lines, until its brackets balance. Its parameters are counted at the commas outside all
brackets.
-/

namespace CodeAtlas.Header

open Text

/-- How many more brackets of the first string than of the second a code line has. -/
def balance (opening closing : String) (code : Text) : Int := (countAny code opening : Int) - countAny code closing

/-- The number of the last line of a header that begins at `line`: the first at which its round and square brackets balance, or the
last line of the file. -/
def lastLine (noise : Noise) (lines : List Text) (line : Nat) : Nat :=
  go 0 line (lines.drop (line - 1))
where
  /-- `depth` brackets are open before the line with number `line`, the first of the rest. -/
  go (depth : Int) (line : Nat) : List Text → Nat
    | [] => lines.length
    | l :: ls =>
      let depth := depth + balance "([" ")]" (noise.strip l)
      if depth ≤ 0 then line else go depth (line + 1) ls

/-- The lines of a header, without the blanks around them: the first lines until the round brackets balance, `limit` at most. -/
def pieces (noise : Noise) : (limit : Nat) → (depth : Int) → List Text → List Text
  | 0, _, _ => []
  | _ + 1, _, [] => []
  | limit + 1, depth, l :: ls =>
    let depth := depth + balance "(" ")" (noise.strip l)
    strip l :: if depth ≤ 0 then [] else pieces noise limit depth ls

/-- The header that begins with the first of the lines, on one line. -/
def joined (noise : Noise) (lines : List Text) (limit : Nat := 30) : Text := join " " (pieces noise limit 0 lines)

/-- Words that look like a call or a declaration and are neither. -/
def controlWords : List String :=
  ["if", "for", "while", "switch", "catch", "return", "else", "do", "foreach", "elif", "elsif", "unless", "until", "case", "when",
    "match", "new", "throw", "delete", "typeof", "sizeof", "await", "yield", "loop", "select", "function", "using", "lock", "fixed",
    "synchronized"]

/-- Whether a line without leading blanks is part of a comment. -/
def isComment (trimmed : Text) : Bool := trimmed.startsWithAny ["//", "/*", "*"]

/-- The text up to the closing bracket of a list whose opening bracket has been passed, `depth` nested brackets being open, and the
text after it. Without a closing bracket there is no text after it. -/
def upToClosing : (depth : Nat) → Text → Text × Option Text
  | _, [] => ([], none)
  | depth, c :: r =>
    if c = ')' ∧ depth = 0 then ([], some r)
    else
      let (inside, after) := upToClosing (if c = '(' then depth + 1 else if c = ')' then depth - 1 else depth) r
      (c :: inside, after)

/-- The text in the first round brackets of a header and the text after them. -/
def bracketed? (header : Text) : Option (Text × Option Text) := (cut? ['('] header).map fun p => upToClosing 0 p.2

/-- The text in the first round brackets of a header, empty when it has none. -/
def bracketedText (header : Text) : Text := ((bracketed? header).map (·.1)).getD []

/-- The pieces of a parameter list between the commas outside brackets. A closing bracket without an opening one counts too. -/
def parameters : (depth : Int) → Text → List Text
  | _, [] => [[]]
  | depth, c :: r =>
    let depth := if among "<([\x7b" c then depth + 1 else if among ">)]\x7d" c then depth - 1 else depth
    if c = ',' ∧ depth ≤ 0 then [] :: parameters depth r else consHead c (parameters depth r)
where
  /-- Whether a character is one of a string's. -/
  among (s : String) (c : Char) : Bool := s.toList.contains c

/-- How many parameters a list has, blank ones and those of `skip` left out. -/
def countParameters (params : Text) (skip : List String := []) : Nat :=
  ((parameters 0 params).map strip).countP fun p => !p.isEmpty && !skip.contains (String.ofList p)

end CodeAtlas.Header
