import CodeAtlas.Yaml.Scalar

/-!
# Reading YAML

Package managers write their manifests in YAML. What is read here is one document of maps and lists, indented or in brackets, with
plain and quoted scalars and comments. Anchors, aliases, tags and block scalars do not occur in manifests and count as malformed.
-/

namespace CodeAtlas.Yaml

/-- A place in a text: what is left of it, and the line and column where that begins. -/
structure Cursor where
  text : Text
  line : Nat := 0
  column : Nat := 0

namespace Cursor

/-- One character further. -/
def next (c : Cursor) : Cursor :=
  match c.text with
  | [] => c
  | '\n' :: r => ⟨r, c.line + 1, 0⟩
  | _ :: r => ⟨r, c.line, c.column + 1⟩

/-- A number of characters further. -/
def drop (c : Cursor) : Nat → Cursor
  | 0 => c
  | n + 1 => drop c.next n

/-- Where `rest` begins, which is an end of the text. -/
def seek (c : Cursor) (rest : Text) : Cursor := c.drop (c.text.length - rest.length)

/-- Past the spaces. -/
def skipSpaces (c : Cursor) : Cursor := c.seek (c.text.dropWhile (· == ' '))

end Cursor

namespace ReaderAux

/-- The text after spaces, line ends and comments. -/
def afterBlank : (comment : Bool) → Text → Text
  | _, [] => []
  | _, '\n' :: r => afterBlank false r
  | true, _ :: r => afterBlank true r
  | false, ' ' :: r => afterBlank false r
  | false, '#' :: r => afterBlank true r
  | false, c :: r => c :: r

/-- Past the spaces, line ends and comments. -/
def skip (c : Cursor) : Cursor := c.seek (afterBlank false c.text)

/-- Whether a separator at this place is followed by a blank or the end. -/
def endsToken (t : Text) : Bool :=
  match t with
  | [] => true
  | c :: _ => c == ' ' || c == '\t' || c == '\n'

/-- An item of an indented list begins here. -/
def isItem (t : Text) : Bool := t.head? == some '-' && endsToken (t.drop 1)

/-- The value of a map follows here. -/
def isColon (flow : Bool) (t : Text) : Bool :=
  t.head? == some ':' && (endsToken (t.drop 1) || flow && (t.drop 1).head?.any fun c => [',', '[', ']', '\x7b', '\x7d'].contains c)

/-- What ends a plain scalar in brackets. -/
def flowEnds : List Char := [',', '?', '[', ']', '\x7b', '\x7d']

/-- What no plain scalar begins with. -/
def indicators : List Char :=
  ['-', '?', ':', ',', '[', ']', '\x7b', '\x7d', '#', '&', '*', '!', '|', '>', '\'', '"', '%', '@', '\x60', '\t']

/-- A plain scalar begins here. -/
def isPlain (flow : Bool) (t : Text) : Bool :=
  match t with
  | [] => false
  | c :: r => !indicators.contains c || !endsToken r && (c == '-' || !flow && (c == '?' || c == ':'))

/-- The characters of a plain scalar up to a blank or its end, and the rest. -/
def plainRun (flow : Bool) : Text → Text × Text
  | [] => ([], [])
  | c :: r =>
    if c == ' ' || c == '\t' || c == '\n' || isColon flow (c :: r) || flow && flowEnds.contains c then ([], c :: r)
    else
      let (run, rest) := plainRun flow r
      (c :: run, rest)

/-- What `n` line ends inside a scalar stand for: one for a blank, each further one for itself. -/
def folded (n : Nat) : Text := if n = 1 then [' '] else List.replicate (n - 1) '\n'

/-- A plain scalar after `acc`, which goes on over lines that are indented deeper than `indent`. -/
def plain (flow : Bool) (indent : Int) : (fuel : Nat) → (acc : Text) → Cursor → Text × Cursor
  | 0, acc, c => (acc, c)
  | fuel + 1, acc, c =>
    let (run, rest) := plainRun flow c.text
    if run.isEmpty then (acc, c)
    else
      let acc := acc ++ run
      let c := c.seek rest
      let spaces := rest.takeWhile (· == ' ')
      let blanks := rest.takeWhile fun x => x == ' ' || x == '\n'
      let lineEnds := blanks.count '\n'
      let d := c.drop blanks.length
      let stops := d.text.isEmpty || d.text.head? == some '#' || blanks.isEmpty ||
        (lineEnds != 0 && !flow && decide ((d.column : Int) ≤ indent)) || (plainRun flow d.text).1.isEmpty
      if stops then (acc, c)
      else plain flow indent fuel (acc ++ if lineEnds = 0 then spaces else folded lineEnds) d

/-- The blanks and line ends at the beginning of a text as they count inside quotes. -/
def quotedBlanks (t : Text) : Text × Text :=
  let blanks := t.takeWhile fun x => x == ' ' || x == '\t' || x == '\n'
  let n := blanks.count '\n'
  (if n = 0 then blanks else folded n, t.drop blanks.length)

/-- The inside of single quotes up to the closing one. -/
def single : (fuel : Nat) → (acc : Text) → Text → Option (Text × Text)
  | 0, _, _ => none
  | fuel + 1, acc, t =>
    match t with
    | [] => none
    | '\'' :: '\'' :: r => single fuel (acc ++ ['\'']) r
    | '\'' :: r => some (acc, r)
    | c :: r =>
      if c == ' ' || c == '\t' || c == '\n' then
        let (blanks, rest) := quotedBlanks t
        single fuel (acc ++ blanks) rest
      else single fuel (acc ++ [c]) r

/-- The characters of one-letter escapes. -/
def escapes : List (Char × Char) :=
  [('0', '\x00'), ('a', '\x07'), ('b', '\x08'), ('t', '\t'), ('\t', '\t'), ('n', '\n'), ('v', '\x0B'), ('f', '\x0C'), ('r', '\r'),
   ('e', '\x1B'), (' ', ' '), ('"', '"'), ('\\', '\\'), ('/', '/'), ('N', '\u0085'), ('_', '\u00A0'), ('L', '\u2028'), ('P', '\u2029')]

/-- How many hexadecimal digits follow the letter of an escape. -/
def escapeDigits? (c : Char) : Option Nat := if c = 'x' then some 2 else if c = 'u' then some 4 else if c = 'U' then some 8 else none

/-- The inside of double quotes up to the closing one. -/
def double : (fuel : Nat) → (acc : Text) → Text → Option (Text × Text)
  | 0, _, _ => none
  | fuel + 1, acc, t =>
    match t with
    | [] => none
    | '"' :: r => some (acc, r)
    | '\\' :: '\n' :: r => double fuel acc (r.dropWhile fun x => x == ' ' || x == '\t')
    | '\\' :: e :: r =>
      match escapes.find? fun p => p.1 == e, escapeDigits? e with
      | some p, _ => double fuel (acc ++ [p.2]) r
      | none, some n =>
        if (r.take n).length = n && (r.take n).all isHex then double fuel (acc ++ [Char.ofNat (ofDigits 16 (r.take n))]) (r.drop n)
        else none
      | none, none => none
    | c :: r =>
      if c == ' ' || c == '\t' || c == '\n' then
        let (blanks, rest) := quotedBlanks t
        double fuel (acc ++ blanks) rest
      else double fuel (acc ++ [c]) r

/-- The name that a key of a map stands for. -/
def keyName : Json → String
  | .str s => s
  | .int n => "\x00int " ++ toString n
  | .bool b => "\x00bool " ++ toString b
  | _ => "\x00other"

mutual

/-- A scalar or a value in brackets. -/
def inline (flow : Bool) (indent : Int) : (fuel : Nat) → Cursor → Option (Json × Cursor)
  | 0, _ => none
  | fuel + 1, c =>
    match c.text with
    | '[' :: _ => flowItems fuel (skip c.next) []
    | '{' :: _ => flowFields fuel (skip c.next) []
    | '\'' :: r => (single (r.length + 1) [] r).map fun p => (.str (String.ofList p.1), c.seek p.2)
    | '"' :: r => (double (r.length + 1) [] r).map fun p => (.str (String.ofList p.1), c.seek p.2)
    | _ =>
      if isPlain flow c.text then
        let (t, d) := plain flow indent c.text.length [] c
        some (ofPlain t, d)
      else none

/-- The items of a list in brackets. -/
def flowItems : (fuel : Nat) → Cursor → List Json → Option (Json × Cursor)
  | 0, _, _ => none
  | fuel + 1, c, acc =>
    if c.text.head? = some ']' then some (.list acc, c.next)
    else do
      let (v, d) ← inline true 0 fuel c
      let d := skip d
      let (v, d) ←
        if isColon true d.text then do
          let (w, e) ← flowValue fuel (skip d.next)
          some (Json.object [(keyName v, w)], e)
        else some (v, d)
      flowNext fuel (skip d) (acc ++ [v])

/-- After an item of a list in brackets: the next item or the end. -/
def flowNext : (fuel : Nat) → Cursor → List Json → Option (Json × Cursor)
  | 0, _, _ => none
  | fuel + 1, c, acc =>
    match c.text with
    | ',' :: _ => flowItems fuel (skip c.next) acc
    | ']' :: _ => some (.list acc, c.next)
    | _ => none

/-- The value of a key in brackets, which may be left out. -/
def flowValue : (fuel : Nat) → Cursor → Option (Json × Cursor)
  | 0, _ => none
  | fuel + 1, c =>
    match c.text with
    | ',' :: _ => some (.null, c)
    | ']' :: _ => some (.null, c)
    | '}' :: _ => some (.null, c)
    | _ => inline true 0 fuel c

/-- The fields of a map in brackets. -/
def flowFields : (fuel : Nat) → Cursor → List (String × Json) → Option (Json × Cursor)
  | 0, _, _ => none
  | fuel + 1, c, acc =>
    if c.text.head? = some '\x7d' then some (.object acc, c.next)
    else do
      let (k, d) ← inline true 0 fuel c
      let d := skip d
      let (v, d) ← if isColon true d.text then flowValue fuel (skip d.next) else some (.null, d)
      let acc := Json.putField (keyName k) v acc
      let d := skip d
      match d.text with
      | ',' :: _ => flowFields fuel (skip d.next) acc
      | '}' :: _ => some (.object acc, d.next)
      | _ => none

/-- A value that is indented deeper than `indent`; without one it is null. -/
def node (indent : Int) : (fuel : Nat) → Cursor → Option (Json × Cursor)
  | 0, _ => none
  | fuel + 1, c =>
    let c := skip c
    if c.text.isEmpty ∨ (c.column : Int) ≤ indent then some (.null, c)
    else if isItem c.text then items c.column fuel c []
    else do
      let (v, d) ← inline false indent fuel c
      let d := d.skipSpaces
      if isColon false d.text then
        if d.line = c.line then do
          let (w, e) ← value c.column fuel d.next
          fields c.column fuel (skip e) [(keyName v, w)]
        else none
      else if d.text.isEmpty || d.text.head? == some '\n' || d.text.head? == some '#' then some (v, d)
      else none

/-- The items of a list at a column, the first of them here. -/
def items (column : Nat) : (fuel : Nat) → Cursor → List Json → Option (Json × Cursor)
  | 0, _, _ => none
  | fuel + 1, c, acc =>
    if c.text.isEmpty || decide (c.column < column) then some (.list acc, c)
    else if c.column = column && isItem c.text then do
      let (v, d) ← node column fuel c.next
      items column fuel (skip d) (acc ++ [v])
    else if c.column = column then some (.list acc, c)
    else none

/-- The value after a colon, of a key at a column. On the same line it is a scalar or in brackets; a list may begin below the key. -/
def value (column : Nat) : (fuel : Nat) → Cursor → Option (Json × Cursor)
  | 0, _ => none
  | fuel + 1, c =>
    let d := skip c
    if d.text.isEmpty then some (.null, d)
    else if d.line = c.line then
      if isItem d.text then none
      else do
        let (v, e) ← inline false column fuel d
        let e := e.skipSpaces
        if e.text.isEmpty || e.text.head? == some '\n' || e.text.head? == some '#' then some (v, e) else none
    else if d.column = column && isItem d.text then items column fuel d []
    else node column fuel d

/-- The fields of a map at a column after those of `acc`. -/
def fields (column : Nat) : (fuel : Nat) → Cursor → List (String × Json) → Option (Json × Cursor)
  | 0, _, _ => none
  | fuel + 1, c, acc =>
    if c.text.isEmpty || decide (c.column < column) then some (.object acc, c)
    else if c.column ≠ column ∨ isItem c.text then none
    else do
      let (k, d) ← inline false column fuel c
      let d := d.skipSpaces
      if d.line = c.line && isColon false d.text then do
        let (v, e) ← value column fuel d.next
        fields column fuel (skip e) (Json.putField (keyName k) v acc)
      else none

end

/-- Whether a character may stand in a document. -/
def isAllowed (c : Char) : Bool :=
  let n := c.toNat
  n == 9 || n == 10 || n == 13 || (decide (0x20 ≤ n) && decide (n ≤ 0x7E)) || n == 0x85 ||
    (decide (0xA0 ≤ n) && n != 0xFFFE && n != 0xFFFF)

/-- A text after the mark that a document may begin with. -/
def afterMark (c : Cursor) : Cursor :=
  if c.column = 0 && c.text.startsWith "---" && endsToken (c.text.drop 3) then c.drop 3 else c

end ReaderAux

/-- The value of a document; an empty one is null. None when the text is malformed. -/
def parse? (t : Text) : Option Json :=
  let t := Text.dropStart t "\uFEFF"
  if !t.all ReaderAux.isAllowed then none
  else
    let c := ReaderAux.afterMark (ReaderAux.skip ⟨t, 0, 0⟩)
    match ReaderAux.node (-1) (4 * t.length + 8) c with
    | some (v, d) =>
      let d := ReaderAux.skip d
      if d.text.isEmpty || d.column = 0 && d.text.startsWith "..." then some v else none
    | none => none

end CodeAtlas.Yaml
