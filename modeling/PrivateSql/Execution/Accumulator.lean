import PrivateSql.Expr.Basic
import PrivateSql.Value.Order
/-!
# Accumulators

What is remembered of the rows of a group while an aggregate is computed: the argument of the
aggregate is fed row by row, and the value of the aggregate can be read at any time.

* `Accumulator.fresh` — before the first row;
* `Accumulator.update` — one more row;
* `Accumulator.result` — the aggregate of the rows so far.
-/

namespace PrivateSql

/-- What is made of the moments of some numbers. -/
inductive Statistic where
  | mean
  | variance
  | deviation
  deriving DecidableEq, Repr

/-- What is remembered of the rows of a group. -/
inductive Accumulator (N : Type) where
  /-- The number of values that are not `NULL`. -/
  | count (n : Nat)
  /-- Their sum, `NULL` before the first one. -/
  | sum (total : Value N)
  /-- The value that compares as `keep` with the others, `NULL` before the first one. -/
  | extremum (keep : Ordering) (value : Value N)
  /-- The number of numbers, their sum and the sum of their squares. -/
  | moments (statistic : Statistic) (n : Nat) (total squares : N)

namespace Accumulator

variable {N : Type} [Number N]

/-- The accumulator of a function before the first row. -/
def fresh : AggregateFunction → Accumulator N
  | .count => .count 0
  | .sum => .sum .null
  | .min => .extremum .lt .null
  | .max => .extremum .gt .null
  | .mean => .moments .mean 0 Number.zero Number.zero
  | .variance => .moments .variance 0 Number.zero Number.zero
  | .deviation => .moments .deviation 0 Number.zero Number.zero

/-- One more value for a sum. The first one has to be a number. -/
def addToSum (total v : Value N) : Except QueryError (Value N) :=
  match total, v with
  | total, .null => .ok total
  | .null, .integer i => .ok (.integer i)
  | .null, .float x => .ok (.float x)
  | .null, v => .error (.invalidExpression ("SUM(" ++ v.display ++ ")"))
  | total, v =>
    match total.add v with
    | .ok s => .ok s
    | .error e => .error (.operation e)

/-- One more row, with the value of the argument on it. -/
def update (a : Accumulator N) (v : Value N) : Except QueryError (Accumulator N) :=
  match a with
  | .count n => .ok (.count (if v.isNull then n else n + 1))
  | .sum total => (addToSum total v).map .sum
  | .extremum keep value =>
    .ok (.extremum keep
      (if !v.isNull && (value.isNull || v.compare? value == some keep) then v else value))
  | .moments s n total squares =>
    match v.number? with
    | some x => .ok (.moments s (n + 1) (total + x) (squares + x * x))
    | none => .ok (.moments s n total squares)

/-- A statistic of numbers from their count, their sum and the sum of their squares. The variance is
that of the whole population, and not below 0. -/
def statisticOf (s : Statistic) (n : Nat) (total squares : N) : N :=
  let size := Number.ofInt n
  let mean := total / size
  let variance := Number.maximum (squares / size - mean * mean) Number.zero
  match s with
  | .mean => mean
  | .variance => variance
  | .deviation => Number.sqrt variance

/-- The aggregate of the rows so far. -/
def result : Accumulator N → Value N
  | .count n => .integer (Int64.ofNat n)
  | .sum total => total
  | .extremum _ value => value
  | .moments s n total squares =>
    if n = 0 then .null else .float (statisticOf s n total squares)

/-- Feed some values, one after the other. -/
def updateAll (a : Accumulator N) (vs : List (Value N)) : Except QueryError (Accumulator N) :=
  vs.foldlM update a

end Accumulator

end PrivateSql
