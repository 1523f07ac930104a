/-!
# Gathering faults

Input that may be wrong in several places is read to its end, and all faults are reported together in the order in which they were met.
-/

namespace CodeAtlas

/-- A computation that gathers faults and goes on. -/
abbrev Gathering (φ : Type) := StateM (List φ)

namespace Gathering

/-- The value of a checked part; when it is refused, the fault is gathered and `standIn` takes its place. -/
def check {φ α : Type} (standIn : α) (part : Except φ α) : Gathering φ α :=
  match part with
  | .ok a => pure a
  | .error fault => do
    modify fun faults => faults ++ [fault]
    return standIn

/-- The value, or else all faults that were gathered. -/
def result {φ α : Type} (g : Gathering φ α) : Except (List φ) α :=
  match g.run [] with
  | (a, []) => .ok a
  | (_, faults) => .error faults

end Gathering

end CodeAtlas
