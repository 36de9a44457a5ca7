import PrivateSql.Decimal.Basic
/-!
# The shortest decimal of a binary64 number

A finite positive number is written with the fewest digits that are read back as the same number;
of two decimals that short the nearer one is taken. At an equal distance the format decides.

Everything is exact: the number and the ends of the interval of reals that round to it are
fractions over one denominator, and a decimal is tried on the grids of 1, 2, … 17 digits.

* `Neighbourhood.of` — the interval of reals that round to the number;
* `Neighbourhood.pick?` — the grid point to take, if one lies in the interval;
* `Decimal.shortest` — the first grid with a point.
-/

namespace PrivateSql

/-- Which of two decimals at an equal distance is taken. -/
inductive Tie where
  /-- the upper one -/
  | up
  /-- the one whose last digit is even -/
  | even
  deriving DecidableEq, Repr

/-- The nearer of two neighbouring grid points, `lower` and the one above it, when the value lies
between them at the given place with respect to the middle. -/
def Tie.choose (tie : Tie) (lower : Nat) : Ordering → Nat
  | .lt => lower
  | .gt => lower + 1
  | .eq =>
    match tie with
    | .up => lower + 1
    | .even => if lower % 2 = 0 then lower else lower + 1

/-- The reals that round to a number: those between `low / den` and `high / den`, the ends included
when the significand is even. -/
structure Neighbourhood where
  low : Nat
  value : Nat
  high : Nat
  den : Nat
  closed : Bool
  deriving Repr

namespace Neighbourhood

/-- The neighbourhood of a positive finite number. Below a power of two the numbers are twice as
dense, so the lower end is half as far. -/
def of (x : Binary64) : Neighbourhood :=
  let m := x.significand
  let lowGap := if m = 0x10000000000000 ∧ -1074 < x.exponent then 1 else 2
  let e := x.exponent - 2
  let up := twoPow e.toNat
  { low := (4 * m - lowGap) * up
    value := 4 * m * up
    high := (4 * m + 2) * up
    den := twoPow (-e).toNat
    closed := m % 2 = 0 }

/-- Is the fraction `n / d` in the neighbourhood? -/
def holds (h : Neighbourhood) (n d : Nat) : Bool :=
  if h.closed then decide (h.low * d ≤ n * h.den ∧ n * h.den ≤ h.high * d)
  else decide (h.low * d < n * h.den ∧ n * h.den < h.high * d)

/-- The number of digits before the point of the value, negative when zeros follow the point: the
least `k` with `value < 10 ^ k`, looked for from just below on. -/
def decimalLength (h : Neighbourhood) : Int :=
  let bits : Int := (h.value.log2 : Int) - (h.den.log2 : Int) - 1
  let start : Int := bits * 1233 / 4096 - 1
  let isBelow (k : Int) : Bool :=
    if 0 ≤ k then decide (h.value < tenPow k.toNat * h.den)
    else decide (h.value * tenPow (-k).toNat < h.den)
  match (List.range 5).find? fun (i : Nat) => isBelow (start + i) with
  | some i => start + i
  | none => start + 5

/-- On the grid of the multiples of `10 ^ e`: the point to take, as its multiple, if one of the two
around the value lies in the neighbourhood. -/
def pick? (tie : Tie) (h : Neighbourhood) (e : Int) : Option Nat :=
  let unit := tenPow e.toNat
  let parts := tenPow (-e).toNat
  let below := h.value * parts / (h.den * unit)
  let above := below + 1
  let holdsBelow := h.holds (below * unit) parts
  let holdsAbove := h.holds (above * unit) parts
  if holdsBelow && holdsAbove then
    some (tie.choose below (compare (2 * (h.value * parts)) ((below + above) * (h.den * unit))))
  else if holdsBelow then some below
  else if holdsAbove then some above
  else none

end Neighbourhood

namespace Decimal

/-- Drop the zeros at the end of the digits, at most `n` of them. -/
def dropZeros : Nat → Decimal → Decimal
  | 0, d => d
  | n + 1, d =>
    if d.digits ≠ 0 ∧ d.digits % 10 = 0 then dropZeros n ⟨d.digits / 10, d.exponent + 1⟩ else d

/-- The shortest decimal of a positive finite number. -/
def shortest (tie : Tie) (x : Binary64) : Decimal :=
  let h := Neighbourhood.of x
  let k := h.decimalLength
  let found := (List.range 17).findSome? fun (i : Nat) =>
    (h.pick? tie (k - (i + 1))).map fun d => Decimal.mk d (k - (i + 1))
  dropZeros 20 (found.getD ⟨0, 0⟩)

end Decimal

end PrivateSql
