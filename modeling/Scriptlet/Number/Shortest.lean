import Scriptlet.Number.Binary

/-!
# The shortest decimal of a double

A positive double `m · 2 ^ e` is the nearest double of every real in an interval around it. Its
shortest decimal is the one with the fewest digits in that interval, the nearest to the double if
there are several with as few digits, and the larger one if two are equally near.

All quantities are scaled to natural numbers: the double is `value / unit`, the ends of the interval
are `low / unit` and `high / unit`.
-/

namespace Scriptlet.Number

/-- The positive decimal `digits · 10 ^ exponent`. -/
structure Decimal where
  digits : Nat
  exponent : Int
  deriving DecidableEq, Repr

/-- The reals that round to a double, over the common denominator `unit`. The ends belong to the
interval if `closed` holds. -/
structure Interval where
  low : Nat
  value : Nat
  high : Nat
  unit : Nat
  closed : Bool

/-- The interval of `m · 2 ^ e`. The gap below a power of two is half as wide as the gap above it,
except below the least normal double. -/
def Interval.ofBinary (m : Nat) (e : Int) : Interval :=
  let below := if m = twoTo 52 ∧ -1074 < e then 1 else 2
  let scale := twoTo (e - 2).toNat
  { low := (4 * m - below) * scale
    value := 4 * m * scale
    high := (4 * m + 2) * scale
    unit := twoTo (2 - e).toNat
    closed := m % 2 = 0 }

/-- The number of decimal digits of a natural number. -/
def digitCount (n : Nat) : Nat := (Nat.toDigits 10 n).length

namespace Interval

/-- The power of ten at or below the value: `10 ^ magnitude ≤ value / unit < 10 ^ (magnitude + 1)`. -/
def magnitude (i : Interval) : Int :=
  if i.unit ≤ i.value then (digitCount (i.value / i.unit) : Int) - 1
  else -(digitCount ((i.unit - 1) / i.value) : Int)

/-- `d · 10 ^ k` as a fraction over the interval's unit: numerator and denominator. -/
def scaled (i : Interval) (d : Nat) (k : Int) : Nat × Nat :=
  (d * tenTo k.toNat * i.unit, tenTo (-k).toNat)

/-- Whether the decimal `d · 10 ^ k` lies in the interval. -/
def holds (i : Interval) (d : Nat) (k : Int) : Bool :=
  let (num, den) := i.scaled d k
  if i.closed then i.low * den ≤ num && num ≤ i.high * den
  else i.low * den < num && num < i.high * den

/-- The largest `d` with `d · 10 ^ k` at or below the value. -/
def floor (i : Interval) (k : Int) : Nat :=
  i.value * tenTo (-k).toNat / (tenTo k.toNat * i.unit)

/-- Whether `(d + 1) · 10 ^ k` is at least as near to the value as `d · 10 ^ k`, which is below it. -/
def roundsUp (i : Interval) (d : Nat) (k : Int) : Bool :=
  let (num, den) := i.scaled (2 * d + 1) k
  num ≤ 2 * i.value * den

/-- The decimal of the interval on the grid of the multiples of `10 ^ k`, next to the value. -/
def onGrid? (i : Interval) (k : Int) : Option Nat :=
  let d := i.floor k
  match i.holds d k, i.holds (d + 1) k with
  | true, true => some (if i.roundsUp d k then d + 1 else d)
  | true, false => some d
  | false, true => some (d + 1)
  | false, false => none

/-- The first of the grids `10 ^ k`, `10 ^ (k - 1)`, … with a decimal of the interval. The last grid
is taken as it is: seventeen digits tell all doubles apart. -/
def search (i : Interval) : Nat → Int → Decimal
  | 0, k => ⟨i.floor k, k⟩
  | n + 1, k =>
    match i.onGrid? k with
    | some d => ⟨d, k⟩
    | none => search i n (k - 1)

end Interval

/-- A decimal with one zero less at its end, if it ends in zero. -/
def Decimal.dropZero (d : Decimal) : Decimal :=
  if d.digits % 10 = 0 then ⟨d.digits / 10, d.exponent + 1⟩ else d

/-- The shortest decimal of the double `m · 2 ^ e`, for `0 < m`. -/
def shortest (m : Nat) (e : Int) : Decimal :=
  let i := Interval.ofBinary m e
  (i.search 17 i.magnitude).dropZero

end Scriptlet.Number
