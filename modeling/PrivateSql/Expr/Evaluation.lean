import PrivateSql.Expr.Basic
import PrivateSql.Path.Map
import PrivateSql.Value.Order
/-!
# Evaluation of expressions

An expression is evaluated with the values of the columns. Comparisons and logic are three-valued:
`NULL` is the unknown truth value. A side that decides `AND` or `OR` on its own keeps the other side
from being evaluated when it stands on the left.

* `binaryValue` — the value of an operator, none when it does not fit its operands;
* `functionValue` — the value of a scalar function, likewise;
* `Expr.evaluate` — the value of an expression.
-/

namespace PrivateSql

variable {N : Type} [Number N]

/-- The values of the columns visible to an expression, by path. -/
abbrev Bindings (N : Type) := PathMap (Value N)

/-- The truth value of a comparison, unknown when the values do not compare. -/
def comparison (accept : Ordering → Bool) (l r : Value N) : Value N :=
  match l.compare? r with
  | some o => .boolean (accept o)
  | none => .null

/-- The conjunction of two truth values, either of which may be unknown. -/
def conjunction : Value N → Value N → Option (Value N)
  | _, .boolean false => some (.boolean false)
  | .boolean true, .boolean true => some (.boolean true)
  | .null, .null => some .null
  | .null, .boolean _ => some .null
  | .boolean _, .null => some .null
  | .boolean _, .boolean _ => some .null
  | _, _ => none

/-- The disjunction of two truth values, either of which may be unknown. -/
def disjunction : Value N → Value N → Option (Value N)
  | _, .boolean true => some (.boolean true)
  | .boolean false, .boolean false => some (.boolean false)
  | .null, .null => some .null
  | .null, .boolean _ => some .null
  | .boolean _, .null => some .null
  | .boolean _, .boolean _ => some .null
  | _, _ => none

/-- The value of an operator written in any case. There is none for an operator that is not known,
nor for a logical one between values that are no truth values. -/
def binaryValue (op : String) (l r : Value N) : Option (Except ValueError (Value N)) :=
  match Text.toUpper op with
  | "+" => some (l.add r)
  | "-" => some (l.sub r)
  | "*" => some (l.mul r)
  | "/" => some (l.div r)
  | "%" => some (l.rem r)
  | "=" => some (.ok (comparison (· == .eq) l r))
  | "<>" | "!=" => some (.ok (comparison (· != .eq) l r))
  | "<" => some (.ok (comparison (· == .lt) l r))
  | "<=" => some (.ok (comparison (· != .gt) l r))
  | ">" => some (.ok (comparison (· == .gt) l r))
  | ">=" => some (.ok (comparison (· != .lt) l r))
  | "AND" => (conjunction l r).map .ok
  | "OR" => (disjunction l r).map .ok
  | _ => none

/-- Does the left side decide a logical operator on its own? -/
def decidedByLeft (op : String) (l : Value N) : Option (Value N) :=
  match Text.toUpper op, l.truth? with
  | "AND", some false => some (.boolean false)
  | "OR", some true => some (.boolean true)
  | _, _ => none

/-- The value of a unary operator, none when it does not fit its operand. -/
def unaryValue (op : String) (v : Value N) : Option (Except ValueError (Value N)) :=
  if op = "-" then
    some v.neg
  else if Text.eqIgnoringAsciiCase op "NOT" then
    match v with
    | .null => some (.ok .null)
    | .boolean b => some (.ok (.boolean (!b)))
    | _ => none
  else
    none

/-- The number of places a 64-bit word asks for: its lowest 32 bits, with their sign. -/
def placesOf (digits : Int64) : Int := digits.toInt.bmod 0x100000000

/-- The value of a scalar function. A first argument `NULL` gives `NULL`, and so does the square
root of a negative number. There is no value for unknown functions and for arguments that do not
fit. -/
def functionValue (name : String) (args : List (Value N)) : Option (Value N) :=
  match name, args with
  | _, .null :: _ => some .null
  | "ABS", [.integer i] => (int64? i.toInt.natAbs).map .integer
  | "ABS", [.float x] => some (.float (Number.abs x))
  | "SQRT", [v] =>
    v.number?.map fun x => if Number.lt x Number.zero then .null else .float (Number.sqrt x)
  | "CEIL", [.integer i] => some (.integer i)
  | "FLOOR", [.integer i] => some (.integer i)
  | "ROUND", [.integer i] => some (.integer i)
  | "CEIL", [.float x] => some (.float (Number.roundToInteger .ceil x))
  | "FLOOR", [.float x] => some (.float (Number.roundToInteger .floor x))
  | "ROUND", [.float x] => some (.float (Number.roundToInteger .nearest x))
  | "ROUND", [.float x, .integer digits] => some (.float (Number.roundToPlaces x (placesOf digits)))
  | "ROUND", [.integer i, .integer _] => some (.integer i)
  | _, _ => none

/-- An operator without value is an invalid expression; its other errors are those of values. -/
def valueOrInvalid (e : Expr N) : Option (Except ValueError (Value N)) → Except QueryError (Value N)
  | some (.ok v) => .ok v
  | some (.error err) => .error (.operation err)
  | none => .error (.invalidExpression e.display)

namespace Expr

mutual
/-- The value of an expression. Columns without value and aggregates cannot be evaluated. -/
def evaluate (b : Bindings N) : Expr N → Except QueryError (Value N)
  | .literal l => .ok l.value
  | .column id =>
    match b.find id.parts with
    | .one v => .ok v
    | .none => .error (.unevaluable (display (.column id : Expr N)))
    | .many => .error (.ambiguousColumn id.text)
  | .unary op e => do
    let v ← evaluate b e
    valueOrInvalid (.unary op e) (unaryValue op v)
  | .binary l op r => do
    let x ← evaluate b l
    match decidedByLeft op x with
    | some v => .ok v
    | none =>
      let y ← evaluate b r
      valueOrInvalid (.binary l op r) (binaryValue op x y)
  | .nested e => evaluate b e
  | .isNull e negated => do
    let v ← evaluate b e
    .ok (.boolean (v.isNull != negated))
  | .call name args => do
    let vs ← evaluateAll b args
    match functionValue name vs with
    | some v => .ok v
    | none => .error (.invalidExpression (display (.call name args)))
  | .aggregate f e => .error (.unevaluable (display (.aggregate f e)))
  | .aggregateRows f => .error (.unevaluable (display (.aggregateRows f : Expr N)))

/-- The values of some expressions, up to the first error. -/
def evaluateAll (b : Bindings N) : List (Expr N) → Except QueryError (List (Value N))
  | [] => .ok []
  | e :: es => do
    let v ← evaluate b e
    let vs ← evaluateAll b es
    .ok (v :: vs)
end

end Expr

end PrivateSql
