import CodeAtlas.Text.Letter

/-!
# Patterns of source text

A pattern describes the shape of a header, an import or a comment: characters, sequences, ordered choices, repetitions and
conditions on the place where it stands. Some of its pieces are named as parts, and a match gives back their text.
-/

namespace CodeAtlas

/-- The parts of a construct that a pattern may name. -/
inductive Part where
  | exported
  | visibility
  | modifiers
  | async
  | static
  | keyword
  | name
  | alias
  | receiver
  | params
  | paramList
  | returnType
  | bases
  | interfaces
  | trait
  | shape
  | specifier
  | clause
  | binding
  | typeOnly
  | wildcard
  | items
  | terminator
  | singleton
  | ownDirectory
  deriving DecidableEq, Repr

/-- A shape of text. Alternatives are tried in order; a repetition takes as many turns as it can, or as few when it is lazy. -/
inductive Pattern where
  /-- The empty text. -/
  | nothing
  /-- One character of a class. -/
  | one (accepts : Char → Bool)
  /-- Any number of characters of a class. -/
  | many (accepts : Char → Bool) (lazy : Bool)
  /-- One pattern after the other. -/
  | seq (first second : Pattern)
  /-- The first pattern or else the second. -/
  | alt (first second : Pattern)
  /-- Any number of turns of a pattern. -/
  | star (body : Pattern) (lazy : Bool)
  /-- A pattern whose text is remembered under a label. -/
  | part (label : Part) (body : Pattern)
  /-- A condition on the character before and the text that follows. -/
  | here (holds : Option Char → Text → Bool)

namespace Pattern

/-- The characters of a string, one after the other. -/
def lit (s : String) : Pattern := s.toList.foldr (fun c p => .seq (.one (· == c)) p) .nothing

instance : Coe String Pattern := ⟨lit⟩
instance : Append Pattern := ⟨seq⟩
instance : OrElse Pattern := ⟨fun p q => alt p (q ())⟩

/-- The pattern, or nothing. -/
def opt (p : Pattern) : Pattern := alt p nothing

/-- One or more turns of a pattern. -/
def plus (p : Pattern) : Pattern := seq p (star p false)

/-- The first of several patterns that fits. -/
def anyOf : List Pattern → Pattern
  | [] => .here fun _ _ => false
  | [p] => p
  | p :: ps => alt p (anyOf ps)

/-- The first of several words that fits. -/
def oneOfWords (ws : List String) : Pattern := anyOf (ws.map lit)

/-- One or more characters of a class. -/
def some1 (accepts : Char → Bool) : Pattern := seq (one accepts) (many accepts false)

/-- One or more characters of a class, as few as possible. -/
def few1 (accepts : Char → Bool) : Pattern := seq (one accepts) (many accepts true)

/-- Any number of characters of a class. -/
def any0 (accepts : Char → Bool) : Pattern := many accepts false

/-- Any number of characters of a class, as few as possible. -/
def few0 (accepts : Char → Bool) : Pattern := many accepts true

/-- The class of the characters of a string. -/
def among (s : String) (c : Char) : Bool := s.toList.contains c

/-- The class of all characters but those of a string. -/
def except (s : String) (c : Char) : Bool := !s.toList.contains c

/-- The class of word characters and those of a string. -/
def wordOr (s : String) (c : Char) : Bool := Text.isWordChar c || s.toList.contains c

/-- Any number of blanks. -/
def blanks : Pattern := any0 Text.isBlank

/-- At least one blank. -/
def gap : Pattern := some1 Text.isBlank

/-- An ASCII letter or underscore with the word characters that follow. -/
def identifier : Pattern := seq (one Text.isNameStart) (any0 Text.isWordChar)

/-- One or more word characters. -/
def word : Pattern := some1 Text.isWordChar

/-- The start of the text. -/
def start : Pattern := here fun before _ => before.isNone

/-- The start of a line. -/
def lineStart : Pattern := here fun before _ => before.isNone || before == some '\n'

/-- The end of the text, also just before a final line feed. -/
def ending : Pattern := here fun _ rest => rest.isEmpty || rest == ['\n']

/-- The end of a line. -/
def lineEnd : Pattern := here fun _ rest => rest.isEmpty || rest.head? == some '\n'

/-- The edge of a word: exactly one of the two neighbours is a word character. -/
def edge : Pattern := here fun before rest => before.any Text.isWordChar != rest.head?.any Text.isWordChar

/-- The character before is not of the class. -/
def notAfter (class_ : Char → Bool) : Pattern := here fun before _ => !before.any class_

end Pattern

end CodeAtlas
