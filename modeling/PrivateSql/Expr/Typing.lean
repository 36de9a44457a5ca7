import PrivateSql.Expr.Basic
import PrivateSql.Scope.Symbol
/-!
# Types, bounds and sensitivity of expressions

What can be said of an expression from the columns alone: the type of its values, an interval they
lie in, and, for a raw aggregate, how far its value can move when one row changes.

* `Expr.dataType`, `Expr.bounds`, `Expr.sensitivity`.
-/

namespace PrivateSql.Expr

variable {N : Type}

/-- The type of an arithmetic operator: numeric, or unknown. -/
def arithmeticType (l r : DataType) : DataType :=
  let t := l.widen r
  if t.isNumeric then t else .unknown

/-- The type of the values of an expression. -/
def dataType (scope : Scope N) : Expr N → DataType
  | .literal l => l.value.dataType
  | .column id =>
    match scope.resolve id with
    | .ok s => s.dataType
    | .error _ => .unknown
  | .unary op e => if Text.eqIgnoringAsciiCase op "NOT" then .boolean else dataType scope e
  | .binary l op r =>
    match op with
    | "+" | "-" | "*" | "%" => arithmeticType (dataType scope l) (dataType scope r)
    | "/" => .float
    | _ => .boolean
  | .nested e => dataType scope e
  | .isNull _ _ => .boolean
  | .call name args =>
    if name = "SQRT" then .float
    else match args with
      | e :: _ => dataType scope e
      | [] => .unknown
  | .aggregate f e =>
    match f with
    | .count => .integer
    | .sum | .min | .max => dataType scope e
    | .mean | .variance | .deviation => .float
  | .aggregateRows f =>
    match f with
    | .count => .integer
    | .sum | .min | .max => .unknown
    | .mean | .variance | .deviation => .float

variable [Number N]

/-- The bounds of an operator from those of its sides. -/
def binaryBounds? (op : String) (l r : Interval N) : Option (Interval N) :=
  match op with
  | "+" => some (l.add r)
  | "-" => some (l.sub r)
  | "*" => some (l.mul r)
  | "/" => l.div? r
  | _ => none

/-- The bounds of a function of `count` arguments from those of its first one. -/
def callBounds? (name : String) (count : Nat) (i : Interval N) : Option (Interval N) :=
  match name with
  | "ABS" => some i.abs
  | "SQRT" => i.sqrt?
  | "CEIL" => some (i.map (Number.roundToInteger .ceil))
  | "FLOOR" => some (i.map (Number.roundToInteger .floor))
  | "ROUND" => if count = 1 then some (i.map (Number.roundToInteger .nearest)) else none
  | _ => none

/-- An interval the values of an expression lie in, from the bounds declared for the columns. -/
def bounds (scope : Scope N) : Expr N → Option (Interval N)
  | .literal l => l.value.number?.map Interval.point
  | .column id =>
    match scope.resolve id with
    | .ok s => s.bounds
    | .error _ => none
  | .unary op e => if op = "-" then (bounds scope e).map Interval.neg else none
  | .binary l op r => do
    let i ← bounds scope l
    let j ← bounds scope r
    binaryBounds? op i j
  | .nested e => bounds scope e
  | .isNull _ _ => none
  | .call name args =>
    match args with
    | e :: es => (bounds scope e).bind (callBounds? name (es.length + 1))
    | [] => none
  | .aggregate f e =>
    match f with
    | .min | .max | .mean => bounds scope e
    | _ => none
  | .aggregateRows _ => none

/-- How far the value of a raw aggregate can move when one row is added, removed or changed. -/
def sensitivity (scope : Scope N) : Expr N → Option N
  | .aggregate .count _ => some Number.one
  | .aggregateRows .count => some Number.one
  | .aggregate .sum e => (bounds scope e).map Interval.width
  | .aggregate .min e => (bounds scope e).map Interval.width
  | .aggregate .max e => (bounds scope e).map Interval.width
  | _ => none

end PrivateSql.Expr
