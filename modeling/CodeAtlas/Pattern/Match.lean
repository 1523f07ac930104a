import CodeAtlas.Pattern.Basic

/-!
# Matching

`Pattern.run` tries a pattern at a place of a text and hands every way to fit it, best first, to what is to follow; the first way
that lets the rest succeed wins. On top of it stand matching at the start, matching the whole text, searching, finding all
occurrences and replacing them.
-/

namespace CodeAtlas

/-- A place in a text: how far in it is, the character before, and the text from there on. -/
structure Place where
  offset : Nat
  before : Option Char
  rest : Text

/-- The start of a text. -/
def Place.ofText (t : Text) : Place := ⟨0, none, t⟩

/-- A part remembered while a match is under way: the text from its beginning on, of which it takes the first `length` characters. -/
structure MarkedPart where
  label : Part
  from_ : Text
  length : Nat

/-- The text of a marked part. -/
def MarkedPart.text (p : MarkedPart) : Text := p.from_.take p.length

/-- A place reached by a match under way, with the parts remembered so far, the latest first. -/
structure Progress where
  place : Place
  parts : List MarkedPart

/-- A piece of text that fits a pattern. -/
structure Match where
  /-- How many characters come before. -/
  offset : Nat
  /-- The matched text. -/
  text : Text
  /-- The text after the match. -/
  rest : Text
  /-- The named parts, the latest first. -/
  parts : List (Part × Text)

namespace Match

/-- The text of a part, if the part took part in the match. -/
def get? (m : Match) (p : Part) : Option Text := (m.parts.find? fun q => q.1 = p).map (·.2)

/-- The text of a part, empty when it took no part. -/
def get (m : Match) (p : Part) : Text := (m.get? p).getD []

/-- Whether a part has text. -/
def has (m : Match) (p : Part) : Bool := !(m.get p).isEmpty

end Match

namespace Pattern

namespace RunAux

/-- The place after `c`, when `r` is what follows it. -/
def past (s : Progress) (c : Char) (r : Text) : Progress :=
  { s with place := ⟨s.place.offset + 1, some c, r⟩ }

/-- Turns over the characters of a class, on the text that is left. -/
def chars {α : Type} (accepts : Char → Bool) (lazy : Bool) (k : Progress → Option α) : Text → Progress → Option α
  | [], s => k s
  | c :: r, s =>
    if !accepts c then k s
    else if lazy then (k s).orElse fun _ => chars accepts lazy k r (past s c r)
    else (chars accepts lazy k r (past s c r)).orElse fun _ => k s

/-- Turns of a body. The text that is left at the beginning bounds their number: every turn but the last takes at least one character.
A turn that takes none ends the repetition. -/
def loop {α : Type} (body : Progress → (Progress → Option α) → Option α) (lazy : Bool) (k : Progress → Option α) :
    Text → Progress → Option α
  | [], s => if lazy then (k s).orElse fun _ => body s k else (body s k).orElse fun _ => k s
  | _ :: turns, s =>
    let next := fun _ : Unit => body s fun s' => if s'.place.offset = s.place.offset then k s' else loop body lazy k turns s'
    if lazy then (k s).orElse next else (next ()).orElse fun _ => k s

end RunAux

/-- Fits the pattern at a place and goes on with `k`; the ways to fit are tried in order until `k` succeeds. -/
def run {α : Type} : Pattern → Progress → (Progress → Option α) → Option α
  | nothing, s, k => k s
  | one accepts, s, k =>
    match s.place.rest with
    | [] => none
    | c :: r => if accepts c then k (RunAux.past s c r) else none
  | many accepts lazy, s, k => RunAux.chars accepts lazy k s.place.rest s
  | seq p q, s, k => run p s fun s' => run q s' k
  | alt p q, s, k => (run p s k).orElse fun _ => run q s k
  | star p lazy, s, k => RunAux.loop (run p) lazy k s.place.rest s
  | part n p, s, k =>
    run p s fun s' =>
      k { s' with parts := ⟨n, s.place.rest, s'.place.offset - s.place.offset⟩ :: s'.parts }
  | here holds, s, k => if holds s.place.before s.place.rest then k s else none

/-- The match at a place whose end satisfies `accept`. -/
def matchAt (p : Pattern) (accept : Place → Bool) (at_ : Place) : Option Match :=
  p.run ⟨at_, []⟩ fun s =>
    if accept s.place then
      some
        { offset := at_.offset
          text := at_.rest.take (s.place.offset - at_.offset)
          rest := s.place.rest
          parts := s.parts.map fun p => (p.label, p.text) }
    else none

/-- The match at the start of a text. -/
def matchStart? (p : Pattern) (t : Text) : Option Match := p.matchAt (fun _ => true) (Place.ofText t)

/-- The match that takes the whole text. -/
def matchWhole? (p : Pattern) (t : Text) : Option Match := p.matchAt (·.rest.isEmpty) (Place.ofText t)

/-- Whether the pattern fits the whole text. -/
def isWhole (p : Pattern) (t : Text) : Bool := (p.matchWhole? t).isSome

namespace SearchAux

/-- The leftmost match from a place on. -/
def first (p : Pattern) (offset : Nat) (before : Option Char) : Text → Option Match
  | [] => p.matchAt (fun _ => true) ⟨offset, before, []⟩
  | c :: r =>
    match p.matchAt (fun _ => true) ⟨offset, before, c :: r⟩ with
    | some m => some m
    | none => first p (offset + 1) (some c) r

/-- All matches from a place on, after the next `skip` characters. -/
def all (p : Pattern) (skip offset : Nat) (before : Option Char) : Text → List Match
  | [] => if skip = 0 then (p.matchAt (fun _ => true) ⟨offset, before, []⟩).toList else []
  | c :: r =>
    match skip with
    | n + 1 => all p n (offset + 1) (some c) r
    | 0 =>
      match p.matchAt (fun _ => true) ⟨offset, before, c :: r⟩ with
      | some m => m :: all p (m.text.length - 1) (offset + 1) (some c) r
      | none => all p 0 (offset + 1) (some c) r

/-- The text from a place on, each match replaced, after the next `skip` characters are passed over. -/
def substitute (p : Pattern) (new : Text) (skip offset : Nat) (before : Option Char) : Text → Text
  | [] => []
  | c :: r =>
    match skip with
    | n + 1 => substitute p new n (offset + 1) (some c) r
    | 0 =>
      match p.matchAt (fun _ => true) ⟨offset, before, c :: r⟩ with
      | some m => new ++ substitute p new (m.text.length - 1) (offset + 1) (some c) r
      | none => c :: substitute p new 0 (offset + 1) (some c) r

end SearchAux

/-- The leftmost match in a text. -/
def search? (p : Pattern) (t : Text) : Option Match := SearchAux.first p 0 none t

/-- Whether the pattern occurs in a text. -/
def occursIn (p : Pattern) (t : Text) : Bool := (p.search? t).isSome

/-- The matches in a text from left to right, none overlapping another. -/
def findAll (p : Pattern) (t : Text) : List Match := SearchAux.all p 0 0 none t

/-- The text with every match replaced by `new`. The pattern has to take at least one character. -/
def replaceAll (p : Pattern) (new : String) (t : Text) : Text := SearchAux.substitute p new.toList 0 0 none t

end Pattern

end CodeAtlas
