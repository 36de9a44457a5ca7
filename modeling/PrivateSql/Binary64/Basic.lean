/-!
# Binary64 numbers

A binary64 number is kept as its 64 bits, so that two numbers are equal exactly when they are
written alike: the two zeros differ, and a NaN keeps its sign and its payload. The comparisons of
the format are read off the bits.

* `lt`, `le`, `eq` — the comparisons of numbers, false as soon as a NaN takes part;
* `totalCompare` — the total order of the bit patterns: negative NaNs, negative numbers, the two
  zeros, positive numbers, positive NaNs;
* `significand`, `exponent` — a finite number is `± significand * 2 ^ exponent`.
-/

namespace PrivateSql

/-- A binary64 number, as its bits. -/
structure Binary64 where
  bits : UInt64
  deriving DecidableEq, Inhabited

namespace Binary64

/-- The 63 bits below the sign. -/
def magnitude (x : Binary64) : Nat := x.bits.toNat % 0x8000000000000000

/-- Is the sign bit set? -/
def isNegative (x : Binary64) : Bool := decide (0x8000000000000000 ≤ x.bits.toNat)

/-- The magnitude of the infinities: finite numbers lie below it, NaNs above. -/
def infinityMagnitude : Nat := 0x7FF0000000000000

/-- The number with this sign and this magnitude. -/
def ofMagnitude (negative : Bool) (magnitude : Nat) : Binary64 :=
  ⟨UInt64.ofNat (if negative then 0x8000000000000000 + magnitude else magnitude)⟩

def isNaN (x : Binary64) : Bool := decide (infinityMagnitude < x.magnitude)

def isFinite (x : Binary64) : Bool := decide (x.magnitude < infinityMagnitude)

/-- The zero with this sign. -/
def zero (negative : Bool) : Binary64 := ofMagnitude negative 0

/-- The infinity with this sign. -/
def infinity (negative : Bool) : Binary64 := ofMagnitude negative infinityMagnitude

/-- The NaN that an invalid operation gives. -/
def invalid : Binary64 := ⟨0xFFF8000000000000⟩

/-- The NaN that the word `nan` stands for. -/
def quietNaN : Binary64 := ⟨0x7FF8000000000000⟩

/-- The place of a number among the numbers; both zeros have place 0. -/
def place (x : Binary64) : Int := if x.isNegative then -(x.magnitude : Int) else x.magnitude

def lt (x y : Binary64) : Bool := !x.isNaN && !y.isNaN && decide (x.place < y.place)

def le (x y : Binary64) : Bool := !x.isNaN && !y.isNaN && decide (x.place ≤ y.place)

def eq (x y : Binary64) : Bool := !x.isNaN && !y.isNaN && decide (x.place = y.place)

/-- The place of a bit pattern among all of them; the negative zero comes just before the other. -/
def totalPlace (x : Binary64) : Int :=
  if x.isNegative then -(x.magnitude : Int) - 1 else x.magnitude

/-- The total order of the bit patterns. -/
def totalCompare (x y : Binary64) : Ordering := compare x.totalPlace y.totalPlace

/-- The exponent field: the bits above the 52 of the fraction. -/
def exponentField (x : Binary64) : Nat := x.magnitude / 0x10000000000000

/-- The integer a finite number multiplies a power of two by. -/
def significand (x : Binary64) : Nat :=
  if x.exponentField = 0 then x.magnitude % 0x10000000000000
  else 0x10000000000000 + x.magnitude % 0x10000000000000

/-- The exponent of that power of two. -/
def exponent (x : Binary64) : Int :=
  (if x.exponentField = 0 then 1 else (x.exponentField : Int)) - 1075

/-- Changing the sign changes the sign bit only, also that of a NaN. -/
def neg (x : Binary64) : Binary64 := ofMagnitude (!x.isNegative) x.magnitude

/-- The absolute value clears the sign bit. -/
def abs (x : Binary64) : Binary64 := ofMagnitude false x.magnitude

theorem magnitude_lt (x : Binary64) : x.magnitude < 0x8000000000000000 := Nat.mod_lt _ (by decide)

theorem totalCompare_swap (x y : Binary64) : (totalCompare x y).swap = totalCompare y x :=
  Int.compare_swap _ _

theorem not_isNaN_of_isFinite {x : Binary64} (h : x.isFinite = true) : x.isNaN = false := by
  simp only [isFinite, isNaN, decide_eq_true_eq, decide_eq_false_iff_not] at *
  omega

end Binary64

end PrivateSql
