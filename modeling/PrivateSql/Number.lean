import PrivateSql.Decimal.Layout
import PrivateSql.Binary64.Arithmetic
/-!
# Numbers

What values, bounds, aggregates and noise need of their numbers. Everything that computes is
written over this class: it runs on binary64, and it can be read with any exact arithmetic in place
of it.

* `Number` — the operations;
* `Number.minimum`, `Number.maximum` — the smaller and the larger of two numbers, where a NaN gives
  way to the other one;
* `Number.powTen` — the power of ten used for rounding to places.
-/

namespace PrivateSql

/-- The operations of the numbers that queries compute with. -/
class Number (N : Type) extends Add N, Sub N, Mul N, Div N, Neg N where
  /-- Identity of numbers: group keys are told apart by it. -/
  decEq : DecidableEq N
  ofInt : Int → N
  /-- The number `digits * 10 ^ exponent`. -/
  ofDecimal : Nat → Int → N
  lt : N → N → Bool
  le : N → N → Bool
  eq : N → N → Bool
  /-- The order used for sorting. -/
  totalCompare : N → N → Ordering
  isNaN : N → Bool
  isFinite : N → Bool
  /-- A number above all the finite ones, where there is one. -/
  infinity : N
  rem : N → N → N
  abs : N → N
  sqrt : N → N
  log : N → N
  pow : N → N → N
  roundToInteger : IntegerRounding → N → N
  /-- The number without its fraction, as a 64-bit word; the nearest word when out of range. -/
  toInt64 : N → Int64
  write : Layout → N → String

namespace Number

variable {N : Type} [Number N]

instance (priority := low) : DecidableEq N := Number.decEq

/-- The number 0. -/
def zero : N := ofInt 0

/-- The number 1. -/
def one : N := ofInt 1

/-- The order of two numbers, none next to a NaN. -/
def compare? (x y : N) : Option Ordering :=
  if lt x y then some .lt else if eq x y then some .eq else if lt y x then some .gt else none

/-- The smaller of two numbers; a NaN gives way. -/
def minimum (x y : N) : N :=
  if isNaN x then y else if isNaN y then x else if lt y x then y else x

/-- The larger of two numbers; a NaN gives way. -/
def maximum (x y : N) : N :=
  if isNaN x then y else if isNaN y then x else if lt x y then y else x

/-- `result * base ^ n`, squaring the base once per bit of `n`. -/
def mulPower (result base : N) (n : Nat) : N :=
  let result := if n % 2 = 1 then result * base else result
  if n / 2 = 0 then result else mulPower result (base * base) (n / 2)
termination_by n
decreasing_by omega

/-- Ten to the power `n`; a negative power is the inverse of the positive one. -/
def powTen (n : Int) : N :=
  let power := mulPower (one : N) (ofInt 10) n.natAbs
  if n < 0 then one / power else power

/-- The number rounded to so many places after the point, before it when negative. -/
def roundToPlaces (x : N) (places : Int) : N :=
  roundToInteger .nearest (x * powTen places) / powTen places

end Number

instance : Number Binary64 where
  add := Binary64.add
  sub := Binary64.sub
  mul := Binary64.mul
  div := Binary64.div
  neg := Binary64.neg
  decEq := inferInstance
  ofInt := Binary64.ofInt
  ofDecimal := Binary64.ofDecimal false
  lt := Binary64.lt
  le := Binary64.le
  eq := Binary64.eq
  totalCompare := Binary64.totalCompare
  isNaN := Binary64.isNaN
  isFinite := Binary64.isFinite
  infinity := Binary64.infinity false
  rem := Binary64.rem
  abs := Binary64.abs
  sqrt := Binary64.sqrt
  log := Binary64.log
  pow := Binary64.pow
  roundToInteger := Binary64.roundToInteger
  toInt64 := Binary64.toInt64
  write := Layout.format

end PrivateSql
