import DaxMigration.Decimal.Binary64

/-!
# Shortest decimals

The decimal with the fewest digits that rounds to a given binary number, and of several such the one
nearest to it. On each decimal grid only the two neighbours of the number are looked at: if any
point of a grid rounds to the number, so does one of those two.
-/

namespace DaxMigration.Decimal

/-- `digits · 10 ^ exponent`. -/
structure Digits where
  digits : Nat
  exponent : Int
deriving DecidableEq

namespace Shortest

/-- The number `value / den`, between the ends `low / den` and `high / den` of the numbers that
round to it; the ends themselves count when `closed`. -/
structure Interval where
  low : Nat
  value : Nat
  high : Nat
  den : Nat
  closed : Bool

/-- All three are multiples of a quarter of the last binary place. Below a power of two the next
number is half as far away. -/
def Interval.ofBinary (m : Nat) (e : Int) : Interval :=
  let below := if m = 1 <<< 52 && Binary64.minExponent < e then 1 else 2
  let unit := Binary64.ratio 1 (e - 2)
  ⟨(4 * m - below) * unit.1, 4 * m * unit.1, (4 * m + 2) * unit.1, unit.2, m % 2 == 0⟩

def numDigits (n : Nat) : Nat :=
  if n = 0 then 0 else (Nat.toDigits 10 n).length

/-- The place of the first digit: `10 ^ (p - 1) ≤ value / den < 10 ^ p`. -/
def Interval.place (i : Interval) : Int :=
  if i.den ≤ i.value then numDigits (i.value / i.den)
  else 1 - (numDigits ((i.den + i.value - 1) / i.value - 1) : Int)

/-- `c · 10 ^ t` over the denominator of the interval, all multiplied by `g.2`. -/
def grid (t : Int) : Nat × Nat :=
  if 0 ≤ t then (Nat.pow 10 t.toNat, 1) else (1, Nat.pow 10 (-t).toNat)

def Interval.holds (i : Interval) (c : Nat) (t : Int) : Bool :=
  let g := grid t
  let x := c * g.1 * i.den
  if i.closed then i.low * g.2 ≤ x && x ≤ i.high * g.2
  else i.low * g.2 < x && x < i.high * g.2

/-- The nearer neighbour on the grid `10 ^ t` that lies in the interval; of two equally near the
even one. -/
def Interval.onGrid? (i : Interval) (t : Int) : Option Digits :=
  let g := grid t
  let num := i.value * g.2
  let den := g.1 * i.den
  let lower := num / den
  let nearest := divideHalfEven num den
  let other := if nearest = lower then lower + 1 else lower
  if i.holds nearest t then some ⟨nearest, t⟩
  else if i.holds other t then some ⟨other, t⟩
  else none

end Shortest

/-- The coarsest grid is the power of ten above the number; seventeen digits always suffice. -/
def shortest (m : Nat) (e : Int) : Digits :=
  if m = 0 then ⟨0, 0⟩
  else
    let i := Shortest.Interval.ofBinary m e
    ((List.range 18).findSome? fun k => i.onGrid? (i.place - (k : Nat))).getD ⟨0, 0⟩

end DaxMigration.Decimal
