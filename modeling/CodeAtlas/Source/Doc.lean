import CodeAtlas.Pattern.Match

/-!
# Documentation comments

The documentation of a declaration is the comment just above it, or the string just below its header. Very short comments are taken
for noise.
-/

namespace CodeAtlas.Doc

open Text

/-- The least length of a documentation text. -/
def minLength : Nat := 10

/-- The text without blanks around it, if it is long enough. -/
def accept (t : Text) : Option Text := if minLength ≤ (strip t).length then some (strip t) else none

/-- The lines with text, one blank between them. -/
def paragraph (ls : List Text) : Text := join " " (ls.filter fun l => !l.isEmpty)

/-! ## Comments above a declaration -/

/-- The text of one line of a block comment. -/
def blockLine (line : Text) : Text :=
  let s := strip line
  let s := if s.startsWith "/**" then s.drop 3 else s.dropStart "/*"
  let s := if endsWith s "*/" then s.take (s.length - 2) else s
  strip (dropStart s "*")

/-- The beginning of a section about a parameter, a result and the like. -/
def tag : Pattern := .one isBlank ++ "@" ++ Pattern.word

/-- The description in a block comment: its text before the first tag. -/
def ofBlock (lines : List Text) : Option Text :=
  let t := paragraph (lines.map blockLine)
  if t.startsWith "@" then none
  else accept (match tag.search? t with
    | some m => t.take m.offset
    | none => t)

/-- The text of a run of line comments. -/
def ofLines (mark : String) (lines : List Text) : Option Text :=
  accept (paragraph (lines.map fun l => strip ((strip l).drop mark.length)))

/-- The lines up to and with the first that satisfies `p`; none when there is no such line. -/
def upTo (p : Text → Bool) : List Text → Option (List Text)
  | [] => none
  | l :: ls => if p l then some [l] else (upTo p ls).map (l :: ·)

/-- A line that may stand between a comment and its declaration: a blank one, or an annotation that is not itself a comment. -/
def isSkipped (marks : List String) (line : Text) : Bool :=
  let s := strip line
  s.isEmpty || (s.startsWithAny ["@", "#[", "["] && !s.startsWithAny marks)

/-- The documentation above a declaration, given the lines above it, the nearest first: a block comment where these are allowed, or a
run of comments that begin with the same mark. -/
def preceding (marks : List String) (allowBlock : Bool) (above : List Text) : Option Text :=
  match above.dropWhile (isSkipped marks) with
  | [] => none
  | l :: ls =>
    if allowBlock && (strip l).endsWith "*/" then
      (upTo (fun x => (strip x).startsWith "/*") (l :: ls)).bind fun block => ofBlock block.reverse
    else
      (marks.find? (strip l).startsWith).bind fun mark =>
        ofLines mark (l :: ls.takeWhile fun x => (strip x).startsWith mark).reverse

/-! ## Strings below a header -/

/-- A comment at the end of a line. -/
def trailingComment : Pattern := .one isBlank ++ "#" ++ Pattern.any0 (· != '\n') ++ Pattern.ending

/-- How many round brackets a line opens, less those it closes. -/
def bracketDelta (line : Text) : Int :=
  let code := trailingComment.replaceAll "" line
  (code.count '(' : Int) - code.count ')'

/-- The lines after a header of which `depth` brackets are open. -/
def afterHeader : (depth : Int) → List Text → List Text
  | _, [] => []
  | depth, l :: ls => if depth ≤ 0 then l :: ls else afterHeader (depth + bracketDelta l) ls

/-- The text of the lines before the one that holds the closing quotes, and of that line before them. -/
def upToQuotes (quotes : String) : List Text → List Text
  | [] => []
  | l :: ls =>
    match cut? quotes.toList (strip l) with
    | some (b, _) => [strip b]
    | none => strip l :: upToQuotes quotes ls

/-- The first line of a string without a letter in front of its quotes. -/
def withoutStringMark (first : Text) : Text :=
  if first.head?.any (fun c => "ruRU".toList.contains c) && startsWithAny (first.drop 1) ["\"\"\"", "'''"] then first.drop 1
  else first

/-- The documentation string of a declaration, given the lines from its header on: a string in triple quotes that begins on the first
line with text after the header. -/
def docstring : List Text → Option Text
  | [] => none
  | header :: ls =>
    match (afterHeader (bracketDelta header) ls).dropWhile fun l => (strip l).isEmpty with
    | [] => none
    | l :: rest =>
      let first := withoutStringMark (strip l)
      match ["\"\"\"", "'''"].find? first.startsWith with
      | none => none
      | some quotes =>
        match cut? quotes.toList (first.drop 3) with
        | some (b, _) => accept b
        | none => accept (paragraph (strip (first.drop 3) :: upToQuotes quotes rest))

end CodeAtlas.Doc
