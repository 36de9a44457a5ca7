import PrivateSql.Binary64.Basic
import PrivateSql.Powers
/-!
# Rounding to binary64

Exact quotients of natural numbers are rounded to the nearest number, a tie going to the even
significand. Integers, decimals and the integer parts of numbers are read through this one rule.

* `ofRatio` — the number nearest to a quotient;
* `ofInt`, `ofDecimal` — the number nearest to an integer, and to `digits * 10 ^ exponent`;
* `roundToInteger`, `toInt64` — the integer near a number, as a number and as a 64-bit word;
* `rem` — the exact remainder, with the sign of the dividend.
-/

namespace PrivateSql

/-- The ways of going from a number to an integer. -/
inductive IntegerRounding
  /-- towards minus infinity -/
  | floor
  /-- towards plus infinity -/
  | ceil
  /-- to the nearest, a half going away from zero -/
  | nearest
  deriving DecidableEq, Repr

/-- Is the magnitude of a number rounded up, when its remainder over `d` is `r`? -/
def IntegerRounding.roundsUp (mode : IntegerRounding) (negative : Bool) (r d : Nat) : Bool :=
  match mode with
  | .floor => negative && decide (r ≠ 0)
  | .ceil => !negative && decide (r ≠ 0)
  | .nearest => decide (d ≤ 2 * r)

namespace Binary64

/-- The quotient rounded to the nearest natural number, a tie going to the even one. -/
def divNearestEven (n d : Nat) : Nat :=
  if 2 * (n % d) < d ∨ (2 * (n % d) = d ∧ n / d % 2 = 0) then n / d else n / d + 1

/-- `n / d` divided by `2 ^ e`, as a quotient again. -/
def scaleDown (n d : Nat) (e : Int) : Nat × Nat :=
  if 0 ≤ e then (n, d * twoPow e.toNat) else (n * twoPow (-e).toNat, d)

/-- The exponent of the last place of the numbers around `n / d`: the quotient has 53 bits before
that place, fewer only below the normal numbers. -/
def lastPlace (n d : Nat) : Int :=
  let e : Int := (n.log2 : Int) - (d.log2 : Int) - 53
  let (n', d') := scaleDown n d e
  max (if d' * 0x20000000000000 ≤ n' then e + 1 else e) (-1074)

/-- The number nearest to `n / d`, a tie going to the even significand, with the sign given.
Counting last places from the least exponent on gives the magnitude, carries included. -/
def ofRatio (negative : Bool) (n d : Nat) : Binary64 :=
  if n = 0 then
    zero negative
  else
    let e := lastPlace n d
    let (n', d') := scaleDown n d e
    let magnitude := (e + 1074).toNat * 0x10000000000000 + divNearestEven n' d'
    ofMagnitude negative (min infinityMagnitude magnitude)

/-- The number nearest to a natural number, with the sign given. -/
def ofNat (negative : Bool) (n : Nat) : Binary64 := ofRatio negative n 1

/-- The number nearest to an integer. -/
def ofInt (i : Int) : Binary64 := ofNat (decide (i < 0)) i.natAbs

/-- The number nearest to `digits * 10 ^ exponent`. Exponents far outside the range of the format
are answered without the power of ten. -/
def ofDecimal (negative : Bool) (digits : Nat) (exponent : Int) : Binary64 :=
  if digits = 0 then
    zero negative
  else if 400 < exponent then
    infinity negative
  else if exponent < -400 - (digits.log2 : Int) then
    zero negative
  else if 0 ≤ exponent then
    ofRatio negative (digits * tenPow exponent.toNat) 1
  else
    ofRatio negative digits (tenPow (-exponent).toNat)

/-- The integer near a number, as a number; the sign stays, that of a zero included. -/
def roundToInteger (mode : IntegerRounding) (x : Binary64) : Binary64 :=
  if !x.isFinite || decide (0 ≤ x.exponent) then
    x
  else
    let d := twoPow (-x.exponent).toNat
    let q := x.significand / d
    let r := x.significand % d
    ofNat x.isNegative (if mode.roundsUp x.isNegative r d then q + 1 else q)

/-- The magnitude of a finite number without its fraction. -/
def wholePart (x : Binary64) : Nat :=
  if 0 ≤ x.exponent then x.significand * twoPow x.exponent.toNat
  else x.significand / twoPow (-x.exponent).toNat

/-- The nearest 64-bit word to an integer: integers outside the words go to the last one. -/
def clampToInt64 (i : Int) : Int64 :=
  Int64.ofInt (max (-0x8000000000000000) (min i 0x7fffffffffffffff))

/-- The number without its fraction, as a 64-bit word: numbers out of range go to the nearest
word, a NaN to 0. -/
def toInt64 (x : Binary64) : Int64 :=
  if x.isNaN then 0
  else if x.isFinite then
    clampToInt64 (if x.isNegative then -(x.wholePart : Int) else x.wholePart)
  else if x.isNegative then Int64.minValue
  else Int64.maxValue

/-- The remainder of the division without fraction, exact, with the sign of the dividend. There is
none for an infinite dividend, for a divisor 0 and next to a NaN. -/
def rem (x y : Binary64) : Binary64 :=
  if x.isNaN then x
  else if y.isNaN then y
  else if !x.isFinite || decide (y.magnitude = 0) then invalid
  else if !y.isFinite then x
  else
    let e := min x.exponent y.exponent
    let n := x.significand * twoPow (x.exponent - e).toNat
    let d := y.significand * twoPow (y.exponent - e).toNat
    let r := n % d
    if 0 ≤ e then ofRatio x.isNegative (r * twoPow e.toNat) 1
    else ofRatio x.isNegative r (twoPow (-e).toNat)

/-- The nearest even quotient is at most half a unit away. -/
theorem divNearestEven_near (n d : Nat) (hd : 0 < d) :
    2 * (divNearestEven n d * d) ≤ 2 * n + d ∧ 2 * n ≤ 2 * (divNearestEven n d * d) + d := by
  have hdiv : d * (n / d) + n % d = n := Nat.div_add_mod n d
  have hmod : n % d < d := Nat.mod_lt n hd
  have hcomm : n / d * d = d * (n / d) := Nat.mul_comm _ _
  unfold divNearestEven
  split
  · rename_i h
    rcases h with h | h <;> (rw [hcomm]; omega)
  · rename_i h
    have : d ≤ 2 * (n % d) := by
      by_cases hlt : 2 * (n % d) < d
      · exact absurd (Or.inl hlt) h
      · omega
    rw [Nat.add_mul, hcomm, Nat.one_mul]
    omega

end Binary64

end PrivateSql
