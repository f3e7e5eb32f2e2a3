-- SUMMARY: The coarsest decimal that reads back as a given double.

/-!
# Shortest decimals

A positive double `m * 2 ^ e` is what every real of an interval rounds to: from
halfway to the double below up to halfway to the double above, ends included
when `m` is even. The decimals `c * 10 ^ g` of one power of ten form a grid, and
the shortest decimal is the point of the coarsest grid that meets the interval.

All comparisons are between naturals. The interval is kept in quarters of
`2 ^ e`, so that both of its ends are whole, and a grid point is compared with
it by multiplying out.
-/

namespace StyleScript.Decimal

/-- The interval of reals that round to one double, in quarters of its unit:
    `low`, `mid` and `high` stand for that many times `2 ^ unit`. -/
structure Interval where
  low : Nat
  mid : Nat
  high : Nat
  unit : Int
  closed : Bool
  deriving DecidableEq, Repr

/-- The interval of `m * 2 ^ e`. Below a power of two the doubles lie twice as
    dense, except at the bottom of the range. -/
def Interval.ofParts (m : Nat) (e : Int) : Interval where
  low := if m = Nat.pow 2 52 ∧ -1074 < e then 4 * m - 1 else 4 * m - 2
  mid := 4 * m
  high := 4 * m + 2
  unit := e - 2
  closed := m % 2 == 0

/-- What a bound of the interval is multiplied by when it is compared with a
    point of the grid of `10 ^ g`. -/
def Interval.boundFactor (i : Interval) (g : Int) : Nat :=
  Nat.pow 2 i.unit.toNat * Nat.pow 10 (-g).toNat

/-- What a point of the grid of `10 ^ g` is multiplied by when it is compared
    with a bound of the interval. -/
def Interval.pointFactor (i : Interval) (g : Int) : Nat :=
  Nat.pow 10 g.toNat * Nat.pow 2 (-i.unit).toNat

/-- Whether `c * 10 ^ g` lies in the interval. -/
def Interval.holds (i : Interval) (c : Nat) (g : Int) : Bool :=
  let point := c * i.pointFactor g
  let low := i.low * i.boundFactor g
  let high := i.high * i.boundFactor g
  if i.closed then low ≤ point && point ≤ high else low < point && point < high

/-- The point of the grid of `10 ^ g` that lies in the interval, if one of the
    two around the double does. Of two the nearer one, and the upper one of two
    that are equally near. -/
def Interval.meet? (i : Interval) (g : Int) : Option Nat :=
  let mid := i.mid * i.boundFactor g
  let below := mid / i.pointFactor g
  let above := below + 1
  match i.holds below g, i.holds above g with
  | true, true =>
    if mid - below * i.pointFactor g < above * i.pointFactor g - mid then some below else some above
  | true, false => some below
  | false, true => some above
  | false, false => none

/-- Try the grids of `10 ^ g`, `10 ^ (g - 1)`, … until one meets the interval. -/
def Interval.search (i : Interval) : Nat → Int → Option (Nat × Int)
  | 0, _ => none
  | tries + 1, g =>
    match i.meet? g with
    | some c => some (c, g)
    | none => i.search tries (g - 1)

/-- A power of ten above `m * 2 ^ e`: `1233 / 4096` is just above the decimal
    logarithm of two. -/
def topPower (m : Nat) (e : Int) : Int :=
  let bits := (m.log2 : Int) + 1 + e
  (bits * 1233) / 4096 + 1

/-- Digits and power of ten of the shortest decimal for the double `m * 2 ^ e`.
    The search ends at the latest on the grid that the double itself lies on. -/
def shortest (m : Nat) (e : Int) : Nat × Int :=
  let top := topPower m e
  let bottom := min e 0
  ((Interval.ofParts m e).search ((top - bottom).toNat + 1) top).getD
    (m * Nat.pow 5 (-e).toNat * Nat.pow 2 e.toNat, bottom)

end StyleScript.Decimal
