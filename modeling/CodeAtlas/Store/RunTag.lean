import CodeAtlas.Text.Quoted

/-!
# Tags of runs

A run is tagged with the moment it starts at, so that tags sort by time, and with a random number that keeps apart runs which start
together.
-/

namespace CodeAtlas

/-- A moment of universal time, to the second. -/
structure Moment where
  year : Nat
  month : Nat
  day : Nat
  hour : Nat := 0
  minute : Nat := 0
  second : Nat := 0

namespace RunTag

/-- A number with at least two digits. -/
def twoDigits (n : Nat) : String := if n < 10 then "0" ++ toString n else toString n

/-- The part of a tag that tells the time. -/
def time (m : Moment) : String :=
  "v" ++ toString m.year ++ twoDigits m.month ++ twoDigits m.day ++ "T" ++ twoDigits m.hour ++ twoDigits m.minute ++
    twoDigits m.second ++ "Z"

/-- The part of a tag that keeps runs apart: eight hexadecimal digits. -/
def mark (random : UInt32) : String := String.ofList (Text.hex 8 random.toNat)

/-- The tag of a run. -/
def ofMoment (m : Moment) (random : UInt32) : String := time m ++ "-" ++ mark random

end RunTag

end CodeAtlas
