import PrivateSql.Number
/-!
# Intervals

Closed intervals of numbers, and the intervals that the results of operations lie in when their
operands lie in given ones.

* `Interval.of` — the interval between two numbers, whichever comes first;
* `Interval.hull` — the smallest interval around some points;
* the operators, partial where the operation itself is: `div?`, `sqrt?`.
-/

namespace PrivateSql

/-- The numbers from `lower` to `upper`. -/
structure Interval (N : Type) where
  lower : N
  upper : N

namespace Interval

variable {N : Type} [Number N]

/-- The interval between two numbers, given in any order. -/
def of (x y : N) : Interval N := if Number.le x y then ⟨x, y⟩ else ⟨y, x⟩

/-- The interval of one number. -/
def point (x : N) : Interval N := of x x

/-- All the numbers. -/
def whole : Interval N := of (-Number.infinity) Number.infinity

def width (i : Interval N) : N := i.upper - i.lower

def contains (i : Interval N) (x : N) : Bool := Number.le i.lower x && Number.le x i.upper

/-- The smallest interval around both. -/
def union (i j : Interval N) : Interval N :=
  of (Number.minimum i.lower j.lower) (Number.maximum i.upper j.upper)

/-- The smallest interval around a point and some others. A NaN counts for nothing; when there is
nothing else, all the numbers. -/
def hull (x : N) (xs : List N) : Interval N :=
  let lower := xs.foldl Number.minimum x
  let upper := xs.foldl Number.maximum x
  if Number.isNaN lower then whole else of lower upper

def add (i j : Interval N) : Interval N := of (i.lower + j.lower) (i.upper + j.upper)

def sub (i j : Interval N) : Interval N := of (i.lower - j.upper) (i.upper - j.lower)

def mul (i j : Interval N) : Interval N :=
  hull (i.lower * j.lower) [i.lower * j.upper, i.upper * j.lower, i.upper * j.upper]

/-- The quotients; there are none when the divisor may be 0. -/
def div? (i j : Interval N) : Option (Interval N) :=
  if j.contains Number.zero then none
  else some (hull (i.lower / j.lower) [i.lower / j.upper, i.upper / j.lower, i.upper / j.upper])

def neg (i : Interval N) : Interval N := of (-i.upper) (-i.lower)

def abs (i : Interval N) : Interval N :=
  if i.contains Number.zero then
    of Number.zero (Number.maximum (Number.abs i.lower) (Number.abs i.upper))
  else
    hull (Number.abs i.lower) [Number.abs i.upper]

/-- The square roots; there are none when a number may be negative. -/
def sqrt? (i : Interval N) : Option (Interval N) :=
  if Number.le Number.zero i.lower then some (of (Number.sqrt i.lower) (Number.sqrt i.upper))
  else none

/-- The image by an increasing function. -/
def map (f : N → N) (i : Interval N) : Interval N := of (f i.lower) (f i.upper)

/-- Equality of the ends, as numbers. -/
def eq (i j : Interval N) : Bool := Number.eq i.lower j.lower && Number.eq i.upper j.upper

/-- The text of an interval in messages. -/
def display (i : Interval N) : String :=
  "[" ++ Number.write .display i.lower ++ ", " ++ Number.write .display i.upper ++ "]"

end Interval

end PrivateSql
