/-!
# Tagged binary messages

A message is a sequence of fields. A field is a tag, which holds its number and how its value is stored, and the value: a whole number
in groups of seven bits, a window of bytes with its length in front, or four or eight bytes that are passed over. Everything is read
from a window, and nothing beyond the window's end is looked at.
-/

namespace CodeAtlas.Wire

/-- What is left of a message: bytes, and the offset in the buffer at which they begin. -/
structure Window where
  start : Nat
  bytes : List UInt8
  deriving DecidableEq, Repr

/-- The offset at which a window ends. -/
def Window.stop (w : Window) : Nat := w.start + w.bytes.length

/-- The window after its first `n` bytes. -/
def Window.drop (w : Window) (n : Nat) : Window := ⟨w.start + n, w.bytes.drop n⟩

/-- The first `n` bytes of a window. -/
def Window.take (w : Window) (n : Nat) : Window := ⟨w.start, w.bytes.take n⟩

/-- Why bytes are no well-formed message. -/
inductive Malformed where
  | truncatedNumber (offset : Nat)
  | longNumber (offset : Nat)
  | fieldZero (offset : Nat)
  | overrun (field length stop offset : Nat)
  | truncatedFixed (field offset : Nat)
  | unsupported (storage field : Nat)
  | outsideBuffer (start stop : Int) (size : Nat)
  deriving DecidableEq, Repr

/-- Whether a number was still going on where its window ended. -/
def Malformed.isTruncated : Malformed → Bool
  | .truncatedNumber _ => true
  | _ => false

/-- The greatest number of bytes of a number. -/
def maxNumberBytes : Nat := 10

/-- The wording of a problem. -/
def Malformed.message : Malformed → String
  | .truncatedNumber o => "truncated varint at offset " ++ toString o
  | .longNumber o => "varint longer than " ++ toString maxNumberBytes ++ " bytes at offset " ++ toString o
  | .fieldZero o => "field number 0 at offset " ++ toString o
  | .overrun f n stop o =>
    "field " ++ toString f ++ " length " ++ toString n ++ " overruns message end " ++ toString stop ++ " at offset " ++ toString o
  | .truncatedFixed f o => "truncated fixed-width field " ++ toString f ++ " at offset " ++ toString o
  | .unsupported s f => "unsupported wire type " ++ toString s ++ " for field " ++ toString f
  | .outsideBuffer a b n =>
    "message window [" ++ toString a ++ ", " ++ toString b ++ ") outside buffer of " ++ toString n ++ " bytes"

/-- The part of a buffer from `start` up to `stop`. -/
def Window.ofBuffer (buffer : List UInt8) (start stop : Nat) : Window := ⟨start, (buffer.take stop).drop start⟩

/-- The part of a buffer from `start` up to `stop`, which have to be offsets in it. -/
def Window.ofBuffer? (buffer : List UInt8) (start stop : Int) : Except Malformed Window :=
  if 0 ≤ start ∧ start ≤ stop ∧ stop ≤ buffer.length then .ok (ofBuffer buffer start.toNat stop.toNat)
  else .error (.outsideBuffer start stop buffer.length)

/-- Whether a part of a buffer is said to go on beyond the end of the buffer. -/
def Window.isBeyond (buffer : List UInt8) (start stop : Nat) : Bool := decide (start < stop) && decide (buffer.length < stop)

/-- Reads groups of seven bits, the lowest first, each byte but the last with its high bit set. `left` more bytes are allowed, and the
number began at `offset`. -/
def number (offset : Nat) : (left : Nat) → List UInt8 → Except Malformed (Nat × Nat)
  | 0, _ => .error (.longNumber offset)
  | _ + 1, [] => .error (.truncatedNumber offset)
  | left + 1, b :: bs =>
    if b.toNat < 128 then .ok (b.toNat, 1)
    else match number offset left bs with
      | .ok (high, used) => .ok (b.toNat % 128 + 128 * high, used + 1)
      | .error e => .error e

/-- The number at the start of a window, and the window after it. -/
def Window.number (w : Window) : Except Malformed (Nat × Window) :=
  match Wire.number w.start maxNumberBytes w.bytes with
  | .ok (n, used) => .ok (n, w.drop used)
  | .error e => .error e

/-- What a field holds. -/
inductive Value where
  | number (n : Nat)
  | window (w : Window)
  deriving DecidableEq, Repr

/-- A field of a message. -/
structure Field where
  number : Nat
  value : Value
  deriving DecidableEq, Repr

/-- The length of a value of fixed width that is passed over. -/
def fixedWidth? (storage : Nat) : Option Nat := if storage = 1 then some 8 else if storage = 5 then some 4 else none

/-- The value of a field with a given tag, and the window after it. A value of fixed width is passed over. -/
def value (field storage : Nat) (w : Window) : Except Malformed (Option Value × Window) :=
  if storage = 0 then
    match w.number with
    | .ok (n, w') => .ok (some (.number n), w')
    | .error e => .error e
  else if storage = 2 then
    match w.number with
    | .ok (n, w') =>
      if w'.bytes.length < n then .error (.overrun field n w.stop w'.start) else .ok (some (.window (w'.take n)), w'.drop n)
    | .error e => .error e
  else match fixedWidth? storage with
    | some n => if w.bytes.length < n then .error (.truncatedFixed field w.start) else .ok (none, w.drop n)
    | none => .error (.unsupported storage field)

/-- The first field of a window, if its value is not passed over, and the window after it. -/
def field (w : Window) : Except Malformed (Option Field × Window) :=
  match w.number with
  | .error e => .error e
  | .ok (tag, w') =>
    if tag / 8 = 0 then .error (.fieldZero w'.start)
    else match value (tag / 8) (tag % 8) w' with
      | .ok (v, w'') => .ok (v.map fun v => ⟨tag / 8, v⟩, w'')
      | .error e => .error e

/-- The fields of a message, and the problem that ended reading before the end of it. -/
structure Fields where
  read : List Field
  problem : Option Malformed := none
  deriving DecidableEq, Repr

/-- Reads at most `left` fields. -/
def fieldsWithin : (left : Nat) → Window → Fields
  | 0, _ => ⟨[], none⟩
  | left + 1, w =>
    if w.bytes.isEmpty then ⟨[], none⟩
    else match field w with
      | .error e => ⟨[], some e⟩
      | .ok (f, w') =>
        let rest := fieldsWithin left w'
        ⟨f.toList ++ rest.read, rest.problem⟩

/-- The fields of a window up to the first problem. A field takes at least one byte, so there are at most as many as bytes. -/
def fields (w : Window) : Fields := fieldsWithin w.bytes.length w

/-- Reads at most `left` numbers. -/
def numbersWithin : (left : Nat) → Window → Except Malformed (List Nat)
  | 0, _ => .ok []
  | left + 1, w =>
    if w.bytes.isEmpty then .ok []
    else match w.number with
      | .error e => .error e
      | .ok (n, w') => match numbersWithin left w' with
        | .ok ns => .ok (n :: ns)
        | .error e => .error e

/-- The numbers that fill a window. -/
def numbers (w : Window) : Except Malformed (List Nat) := numbersWithin w.bytes.length w

end CodeAtlas.Wire
