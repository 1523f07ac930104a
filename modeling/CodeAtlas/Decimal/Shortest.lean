import CodeAtlas.Decimal.Binary64
import CodeAtlas.Text.Basic

/-!
# The shortest decimal that reads back

A double is written with the fewest digits that read back as the same double, and of those with the ones nearest to its value. How
the digits are laid out is a separate matter, decided by a `DecimalLayout` record.
-/

namespace CodeAtlas

/-- How digits are laid out: the places of the decimal point for which they are written positionally, the least number of exponent
digits, and the words for what has no digits. -/
structure DecimalLayout where
  lowestPoint : Int
  highestPoint : Int
  exponentDigits : Nat
  nan : String
  infinity : String

namespace Binary64

namespace ShortestAux

/-- The bounds of the decimals that read back as `m * 2 ^ q`, as quarters of that unit, and whether the bounds belong to them. -/
structure Bounds where
  low : Nat
  value : Nat
  high : Nat
  closed : Bool
  unit : Int

/-- The neighbour below is nearer when the mantissa is a power of two that is not the least exponent's. -/
def bounds (v : Dyadic) : Bounds :=
  let below := if v.mantissa = twoTo 52 ∧ v.exponent ≠ -1074 then 1 else 2
  { low := 4 * v.mantissa - below, value := 4 * v.mantissa, high := 4 * v.mantissa + 2,
    closed := v.mantissa % 2 == 0, unit := v.exponent - 2 }

/-- `a * 2 ^ unit` and `d * 10 ^ k` over a common denominator. -/
def scale (unit k : Int) (a d : Nat) : Nat × Nat :=
  (a * twoTo unit.toNat * tenTo (-k).toNat, d * tenTo k.toNat * twoTo (-unit).toNat)

/-- Whether `d * 10 ^ k` lies between the bounds. -/
def inside (b : Bounds) (k : Int) (d : Nat) : Bool :=
  let (l, x) := scale b.unit k b.low d
  let (h, _) := scale b.unit k b.high d
  if b.closed then decide (l ≤ x) && decide (x ≤ h) else decide (l < x) && decide (x < h)

/-- The nearest of the two decimals around the value on the grid of step `10 ^ k` that reads back, if one does; of two equally near ones
the even one. -/
def onGrid (b : Bounds) (k : Int) : Option Nat :=
  let (v, step) := scale b.unit k b.value 1
  let d := v / step
  match inside b k d && decide (0 < d), inside b k (d + 1) with
  | true, true => if 2 * (v % step) < step ∨ (2 * (v % step) = step ∧ d % 2 = 0) then some d else some (d + 1)
  | true, false => some d
  | false, true => some (d + 1)
  | false, false => none

/-- The first grid, from the coarsest on, with a decimal that reads back. -/
def search (b : Bounds) : Nat → Int → Nat × Int
  | 0, k => ((onGrid b k).getD 0, k)
  | n + 1, k =>
    match onGrid b k with
    | some d => (d, k)
    | none => search b n (k - 1)

/-- The exponent of the leading decimal digit of `m * 2 ^ q`, or one more. -/
def leading (v : Dyadic) : Int :=
  if 0 ≤ v.exponent then (Nat.toDigits 10 (v.mantissa * twoTo v.exponent.toNat)).length
  else
    let e := (-v.exponent).toNat
    ((Nat.toDigits 10 (v.mantissa * tenTo e / twoTo e)).length : Int) - e

/-- Digits without trailing zeros. -/
def dropZeros : Nat → Nat → Int → Nat × Int
  | 0, d, k => (d, k)
  | n + 1, d, k => if d ≠ 0 ∧ d % 10 = 0 then dropZeros n (d / 10) (k + 1) else (d, k)

end ShortestAux

/-- The shortest decimal digits of a finite value other than zero, and the power of ten of the last one. -/
def shortestDigits (v : Dyadic) : Nat × Int :=
  let p := ShortestAux.search (ShortestAux.bounds v) 20 (ShortestAux.leading v)
  ShortestAux.dropZeros 20 p.1 p.2

/-- The text of a number in a notation. -/
def format (f : DecimalLayout) (x : Binary64) : String :=
  let sign := if x.negative then "-" else ""
  if x.isNan then f.nan
  else match x.toDyadic? with
    | none => sign ++ f.infinity
    | some v =>
      if v.mantissa = 0 then sign ++ "0.0"
      else
        let (d, k) := shortestDigits v
        let ds := Nat.toDigits 10 d
        let point : Int := ds.length + k
        if f.lowestPoint ≤ point ∧ point ≤ f.highestPoint then
          let whole := if point ≤ 0 then ['0'] else ds.take point.toNat ++ List.replicate (point.toNat - ds.length) '0'
          let frac := List.replicate (-point).toNat '0' ++ ds.drop point.toNat
          sign ++ String.ofList (whole ++ '.' :: if frac.isEmpty then ['0'] else frac)
        else
          let e := point - 1
          let es := Nat.toDigits 10 e.natAbs
          let frac := ds.drop 1
          sign ++ String.ofList (ds.take 1 ++ (if frac.isEmpty then [] else '.' :: frac) ++
            'e' :: (if e < 0 then '-' else '+') :: List.replicate (f.exponentDigits - es.length) '0' ++ es)

/-- Numbers are written positionally from 0.0001 up to below 10 ^ 16, always with a point. -/
def plain : DecimalLayout := ⟨-3, 16, 2, "nan", "inf"⟩

/-- In a JSON text the values without digits are spelled out. -/
def inJson : DecimalLayout := { plain with nan := "NaN", infinity := "Infinity" }

/-- The text of a number as the indexer reports it. -/
def text (x : Binary64) : String := format plain x

end Binary64

end CodeAtlas
