import Mathlib.Analysis.SpecialFunctions.Pow.Real
import PrivateSql.Value.Arithmetic
import PrivateSql.Value.Order
/-!
# Exact arithmetic

Everything that computes with numbers is written over a class, so it can be read with the real numbers
in place of binary64: the same queries, plans and accumulators, without rounding.  Reals have no NaN
and no infinity; their texts are of no use, and are those of their integer parts.

* the instance of `Number` on the reals;
* `exact_ofInt`, `exact_lt`, `exact_minimum`, … — its operations are those of the reals;
* `exact_roundToInteger_mono` — rounding keeps the order.
-/

namespace PrivateSql

noncomputable section

open Classical in
/-- The nearest integer, a half going away from zero. -/
def roundAway (x : ℝ) : ℤ := if 0 ≤ x then ⌊x + 1 / 2⌋ else ⌈x - 1 / 2⌉

open Classical in
/-- The integer towards zero. -/
def wholePartOf (x : ℝ) : ℤ := if 0 ≤ x then ⌊x⌋ else ⌈x⌉

open Classical in
/-- **Exact arithmetic.**  The real numbers as the numbers of queries. -/
instance : Number ℝ where
  toAdd := inferInstance
  toSub := inferInstance
  toMul := inferInstance
  toDiv := inferInstance
  toNeg := inferInstance
  decEq := inferInstance
  ofInt i := (i : ℝ)
  ofDecimal digits exponent := (digits : ℝ) * 10 ^ exponent
  lt x y := decide (x < y)
  le x y := decide (x ≤ y)
  eq x y := decide (x = y)
  totalCompare x y := cmp x y
  isNaN _ := false
  isFinite _ := true
  infinity := 0
  rem x y := x - y * wholePartOf (x / y)
  abs x := |x|
  sqrt x := Real.sqrt x
  log x := Real.log x
  pow x y := x ^ y
  roundToInteger mode x :=
    match mode with
    | .floor => ⌊x⌋
    | .ceil => ⌈x⌉
    | .nearest => roundAway x
  toInt64 x := Binary64.clampToInt64 (wholePartOf x)
  write _ x := toString (wholePartOf x)

variable {x y : ℝ}

@[simp] theorem exact_ofInt (i : ℤ) : (Number.ofInt i : ℝ) = i := rfl

@[simp] theorem exact_zero : (Number.zero : ℝ) = 0 := by
  rw [Number.zero, exact_ofInt, Int.cast_zero]

@[simp] theorem exact_one : (Number.one : ℝ) = 1 := by
  rw [Number.one, exact_ofInt, Int.cast_one]

@[simp] theorem exact_lt : Number.lt x y = true ↔ x < y := decide_eq_true_iff

@[simp] theorem exact_le : Number.le x y = true ↔ x ≤ y := decide_eq_true_iff

@[simp] theorem exact_eq : Number.eq x y = true ↔ x = y := decide_eq_true_iff

@[simp] theorem exact_isNaN (x : ℝ) : Number.isNaN x = false := rfl

@[simp] theorem exact_abs (x : ℝ) : Number.abs x = |x| := rfl

@[simp] theorem exact_sqrt (x : ℝ) : Number.sqrt x = Real.sqrt x := rfl

@[simp] theorem exact_log (x : ℝ) : Number.log x = Real.log x := rfl

@[simp] theorem exact_minimum (x y : ℝ) : Number.minimum x y = min x y := by
  simp only [Number.minimum, exact_isNaN, exact_lt, Bool.false_eq_true, if_false]
  split
  · exact (min_eq_right (le_of_lt ‹_›)).symm
  · exact (min_eq_left (not_lt.mp ‹_›)).symm

@[simp] theorem exact_maximum (x y : ℝ) : Number.maximum x y = max x y := by
  simp only [Number.maximum, exact_isNaN, exact_lt, Bool.false_eq_true, if_false]
  split
  · exact (max_eq_right (le_of_lt ‹_›)).symm
  · exact (max_eq_left (not_lt.mp ‹_›)).symm

/-- Rounding keeps the order. -/
theorem exact_roundToInteger_mono (mode : IntegerRounding) (h : x ≤ y) :
    (Number.roundToInteger mode x : ℝ) ≤ Number.roundToInteger mode y := by
  cases mode with
  | floor => exact Int.cast_le.mpr (Int.floor_le_floor h)
  | ceil => exact Int.cast_le.mpr (Int.ceil_le_ceil h)
  | nearest =>
      refine Int.cast_le.mpr ?_
      simp only [roundAway]
      split <;> split
      · exact Int.floor_le_floor (by linarith)
      · linarith
      · have hleft : ⌈x - 1 / 2⌉ ≤ 0 := Int.ceil_le.mpr (by push_cast; linarith)
        have hright : 0 ≤ ⌊y + 1 / 2⌋ := Int.le_floor.mpr (by push_cast; linarith)
        linarith
      · exact Int.ceil_le_ceil (by linarith)

/-- An integer is its own rounding. -/
theorem exact_roundToInteger_int (mode : IntegerRounding) (z : ℤ) :
    (Number.roundToInteger mode (z : ℝ) : ℝ) = z := by
  cases mode with
  | floor => exact congrArg Int.cast (Int.floor_intCast z)
  | ceil => exact congrArg Int.cast (Int.ceil_intCast z)
  | nearest =>
      refine congrArg Int.cast ?_
      unfold roundAway
      split
      · rw [Int.floor_eq_iff]
        constructor <;> linarith
      · rw [Int.ceil_eq_iff]
        constructor <;> linarith

/-- An integer becomes the word nearest to it. -/
theorem exact_toInt64_int (z : ℤ) : Number.toInt64 (z : ℝ) = Binary64.clampToInt64 z := by
  have hwhole : wholePartOf (z : ℝ) = z := by
    unfold wholePartOf
    split
    · exact Int.floor_intCast z
    · exact Int.ceil_intCast z
  exact congrArg Binary64.clampToInt64 hwhole

end

end PrivateSql
