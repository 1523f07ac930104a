/-!
# Double-precision numbers by their bits

A confidence, a wait or a setting is a double-precision number. It is kept as its sixty-four bits, so that equality is equality of
bits and every step on it is exact arithmetic on whole numbers.
-/

namespace CodeAtlas

/-- A power of two. -/
def twoTo (n : Nat) : Nat := Nat.pow 2 n

/-- A power of ten. -/
def tenTo (n : Nat) : Nat := Nat.pow 10 n

/-- A double-precision number: a sign bit, eleven bits of exponent and fifty-two of fraction. -/
structure Binary64 where
  bits : UInt64
  deriving DecidableEq, Repr

/-- An exact finite value: `mantissa * 2 ^ exponent`, with a sign. -/
structure Dyadic where
  negative : Bool
  mantissa : Nat
  exponent : Int

/-- An exact decimal value: `digits * 10 ^ exponent`, with a sign. -/
structure DecimalValue where
  negative : Bool
  digits : Nat
  exponent : Int

namespace Binary64

/-- Zero with a positive sign. -/
def zero : Binary64 := ⟨0⟩
/-- The number one. -/
def one : Binary64 := ⟨0x3FF0000000000000⟩
/-- One half. -/
def half : Binary64 := ⟨0x3FE0000000000000⟩
/-- What is no number. -/
def nan : Binary64 := ⟨0x7FF8000000000000⟩
/-- Greater than every finite number. -/
def infinity : Binary64 := ⟨0x7FF0000000000000⟩
/-- Less than every finite number. -/
def negativeInfinity : Binary64 := ⟨0xFFF0000000000000⟩

/-- The sign bit. -/
def negative (x : Binary64) : Bool := decide (twoTo 63 ≤ x.bits.toNat)

/-- The number without its sign. -/
def magnitude (x : Binary64) : Nat := x.bits.toNat % twoTo 63

/-- The magnitude from which on there is no finite value. -/
def infiniteMagnitude : Nat := 0x7FF0000000000000

/-- Not a number. -/
def isNan (x : Binary64) : Bool := decide (infiniteMagnitude < x.magnitude)

/-- One of the two infinities. -/
def isInfinite (x : Binary64) : Bool := x.magnitude == infiniteMagnitude

/-- The number with the sign `negative` and the given magnitude bits. -/
def ofMagnitude (negative : Bool) (magnitude : Nat) : Binary64 :=
  ⟨UInt64.ofNat (magnitude + if negative then twoTo 63 else 0)⟩

/-- The exact value of a finite number. -/
def toDyadic? (x : Binary64) : Option Dyadic :=
  if infiniteMagnitude ≤ x.magnitude then none
  else
    let e : Nat := x.magnitude / twoTo 52
    let f : Nat := x.magnitude % twoTo 52
    some (if e = 0 then ⟨x.negative, f, -1074⟩ else ⟨x.negative, f + twoTo 52, (e : Int) - 1075⟩)

/-- The quotient `n / d`, rounded to the nearest whole number, a tie to the even one. -/
def roundDiv (n d : Nat) : Nat :=
  let q := n / d
  let r := n % d
  if 2 * r < d then q else if d < 2 * r then q + 1 else if q % 2 = 0 then q else q + 1

/-- The number nearest to `n / d`, a tie going to the even one. -/
def ofRatio (negative : Bool) (n d : Nat) : Binary64 :=
  if n = 0 then ofMagnitude negative 0
  else
    let scaled (q : Int) : Nat × Nat := (n * twoTo (-q).toNat, d * twoTo q.toNat)
    let q₀ := max ((n.log2 : Int) - d.log2 - 53) (-1074)
    let q := if (scaled q₀).1 / (scaled q₀).2 < twoTo 53 then q₀ else q₀ + 1
    let m := roundDiv (scaled q).1 (scaled q).2
    let (m, q) := if m = twoTo 53 then (twoTo 52, q + 1) else (m, q)
    if m < twoTo 52 then ofMagnitude negative m
    else
      let e := (q + 1075).toNat
      if 2047 ≤ e then ofMagnitude negative infiniteMagnitude
      else ofMagnitude negative (e * twoTo 52 + (m - twoTo 52))

/-- The number nearest to a decimal value. Exponents far outside the range of finite numbers are decided without computing powers. -/
def ofDecimal (v : DecimalValue) : Binary64 :=
  if v.digits = 0 then ofMagnitude v.negative 0
  else
    let size : Int := (Nat.toDigits 10 v.digits).length + v.exponent
    if 400 < size then ofMagnitude v.negative infiniteMagnitude
    else if size < -400 then ofMagnitude v.negative 0
    else ofRatio v.negative (v.digits * tenTo v.exponent.toNat) (tenTo (-v.exponent).toNat)

/-- The number nearest to a whole number. -/
def ofInt (n : Int) : Binary64 := ofRatio (decide (n < 0)) n.natAbs 1

/-- The whole part of a finite number, toward zero. -/
def truncate? (x : Binary64) : Option Int :=
  x.toDyadic?.map fun v =>
    let n : Nat := v.mantissa * twoTo v.exponent.toNat / twoTo (-v.exponent).toNat
    if v.negative then -(n : Int) else n

/-- The order of the number relative to a whole number; none for what is no number. -/
def compareInt? (x : Binary64) (n : Int) : Option Ordering :=
  if x.isNan then none
  else match x.toDyadic? with
    | none => some (if x.negative then .lt else .gt)
    | some v =>
      let m : Int := if v.negative then -(v.mantissa : Int) else v.mantissa
      some (compare (m * (twoTo v.exponent.toNat : Int)) (n * (twoTo (-v.exponent).toNat : Int)))

/-- The number raised to a power: the exact power, rounded once. -/
def pow (x : Binary64) (n : Nat) : Binary64 :=
  if n = 0 then one
  else match x.toDyadic? with
    | none => if x.isNan then x else ofMagnitude (x.negative && n % 2 == 1) infiniteMagnitude
    | some v =>
      let neg := v.negative && n % 2 == 1
      ofRatio neg (Nat.pow v.mantissa n * twoTo (v.exponent.toNat * n)) (twoTo ((-v.exponent).toNat * n))

/-- A number from zero to one, both included. -/
def inUnitInterval (x : Binary64) : Bool := decide (x.bits ≤ one.bits) || x.bits == 0x8000000000000000

end Binary64

end CodeAtlas
