/-!
# Text as a list of code points

Source text is handled one code point at a time. This module holds the blank characters, trimming, cutting at
separators and counting, all by recursion on the text itself.
-/

namespace CodeAtlas

/-- A piece of text: its code points in order. -/
abbrev Text := List Char

/-- What holds of every character of a text is decided along the text, not over all characters. -/
instance Text.decidableForallMem (t : Text) (p : Char → Prop) [DecidablePred p] : Decidable (∀ c ∈ t, p c) := List.decidableBAll p t

instance Text.decidableExistsMem (t : Text) (p : Char → Prop) [DecidablePred p] : Decidable (∃ c ∈ t, p c) := List.decidableBEx p t

instance Text.decidableForallMemOption (o : Option Char) (p : Char → Prop) [DecidablePred p] : Decidable (∀ c ∈ o, p c) := Option.decidableForallMem o

instance Text.decidableExistsMemOption (o : Option Char) (p : Char → Prop) [DecidablePred p] : Decidable (∃ c ∈ o, p c) := Option.decidableExistsMem o

end CodeAtlas

/-- The code points of a string as a text. -/
abbrev String.text (s : String) : CodeAtlas.Text := s.toList

namespace CodeAtlas.Text

/-- Whether the code point of `c` lies in one of the closed ranges of `table`. -/
def inRanges (table : List (Nat × Nat)) (c : Char) : Bool :=
  table.any fun r => decide (r.1 ≤ c.toNat) && decide (c.toNat ≤ r.2)

/-- The blank code points: the white space and separator characters of Unicode. -/
def blankRanges : List (Nat × Nat) :=
  [(0x09, 0x0D), (0x1C, 0x1F), (0x20, 0x20), (0x85, 0x85), (0xA0, 0xA0), (0x1680, 0x1680), (0x2000, 0x200A),
    (0x2028, 0x2029), (0x202F, 0x202F), (0x205F, 0x205F), (0x3000, 0x3000)]

/-- A blank separates words. -/
def isBlank (c : Char) : Bool := inRanges blankRanges c

/-- Drops the leading characters that satisfy `p`. -/
def trimLeft (p : Char → Bool) (t : Text) : Text := t.dropWhile p

/-- Drops the trailing characters that satisfy `p`. -/
def trimRight (p : Char → Bool) (t : Text) : Text := (t.reverse.dropWhile p).reverse

/-- Drops the characters that satisfy `p` at both ends. -/
def trim (p : Char → Bool) (t : Text) : Text := trimRight p (trimLeft p t)

/-- The text without blanks at either end. -/
def strip (t : Text) : Text := trim isBlank t

/-- Whether `t` begins with the characters of `s`. -/
def startsWith (t : Text) (s : String) : Bool := s.toList.isPrefixOf t

/-- Whether `t` ends with the characters of `s`. -/
def endsWith (t : Text) (s : String) : Bool := s.toList.isSuffixOf t

/-- Whether `t` begins with one of the given strings. -/
def startsWithAny (t : Text) (ss : List String) : Bool := ss.any t.startsWith

/-- Whether `t` ends with one of the given strings. -/
def endsWithAny (t : Text) (ss : List String) : Bool := ss.any t.endsWith

/-- The text after a leading `s`, or the text itself when it does not begin with `s`. -/
def dropStart (t : Text) (s : String) : Text := if t.startsWith s then t.drop s.length else t

/-- Puts a character in front of the first piece. -/
def consHead (c : Char) : List Text → List Text
  | [] => [[c]]
  | p :: ps => (c :: p) :: ps

/-- The pieces between the occurrences of `sep`; there is always at least one. -/
def splitOn (sep : Char) : Text → List Text
  | [] => [[]]
  | c :: r => if c = sep then [] :: splitOn sep r else consHead c (splitOn sep r)

/-- The text before the first occurrence of `sep` and the text after it. -/
def cut? (sep : Text) : Text → Option (Text × Text)
  | [] => if sep.isEmpty then some ([], []) else none
  | c :: r =>
    if sep.isPrefixOf (c :: r) then some ([], (c :: r).drop sep.length)
    else (cut? sep r).map fun p => (c :: p.1, p.2)

/-- The text before the last occurrence of `sep` and the text after it. -/
def cutLast? (sep : Text) : Text → Option (Text × Text)
  | [] => if sep.isEmpty then some ([], []) else none
  | c :: r =>
    match cutLast? sep r with
    | some p => some (c :: p.1, p.2)
    | none => if sep.isPrefixOf (c :: r) then some ([], (c :: r).drop sep.length) else none

/-- The text before the first `sep`, all of it when there is none. -/
def before (t : Text) (sep : String) : Text :=
  match cut? sep.toList t with
  | some p => p.1
  | none => t

/-- The text before the last `sep`, empty when there is none. -/
def beforeLast (t : Text) (sep : String) : Text :=
  match cutLast? sep.toList t with
  | some p => p.1
  | none => []

/-- The text after the last `sep`, all of it when there is none. -/
def afterLast (t : Text) (sep : String) : Text :=
  match cutLast? sep.toList t with
  | some p => p.2
  | none => t

/-- Whether `sep` occurs in `t`. -/
def has (t : Text) (sep : String) : Bool := (cut? sep.toList t).isSome

namespace SplitAux

/-- `skip` counts the characters of a separator that are still to be passed over. -/
def pieces (sep : Text) : Nat → Text → List Text
  | _, [] => [[]]
  | skip + 1, _ :: r => pieces sep skip r
  | 0, c :: r =>
    if sep.isPrefixOf (c :: r) then [] :: pieces sep (sep.length - 1) r
    else consHead c (pieces sep 0 r)

end SplitAux

/-- The pieces between the occurrences of a separator of one or more characters, found from the left. -/
def splitOnText (sep : String) (t : Text) : List Text := SplitAux.pieces sep.toList 0 t

/-- The words of a text: its longest runs of characters that are not blank. -/
def words : Text → List Text
  | [] => []
  | c :: r =>
    if isBlank c then words r
    else match r with
      | [] => [[c]]
      | d :: _ => if isBlank d then [c] :: words r else consHead c (words r)

/-- The pieces with `sep` between them. -/
def join (sep : String) (ts : List Text) : Text := sep.toList.intercalate ts

/-- Words separated by one space each. -/
def squeeze (t : Text) : Text := join " " (words t)

/-- Every `old` becomes the characters of `new`. -/
def replace (old : Char) (new : String) (t : Text) : Text :=
  t.flatMap fun c => if c = old then new.toList else [c]

/-- How many characters of `t` are among those of `s`. -/
def countAny (t : Text) (s : String) : Nat := t.countP fun c => s.toList.contains c

end CodeAtlas.Text
