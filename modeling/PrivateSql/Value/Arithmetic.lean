import PrivateSql.Value.Basic
/-!
# Arithmetic of values

`NULL` next to an operator gives `NULL`. Two integers give an integer, or an error when it does not
fit 64 bits; an integer and a number give a number; other values cannot be computed with. A
division always gives a number, and dividing by zero is an error.

* `ValueError` — what can go wrong;
* `Value.add`, `Value.sub`, `Value.mul`, `Value.div`, `Value.rem`, `Value.neg` — the operators.
-/

namespace PrivateSql

/-- Why an operator has no value. The operands are kept as they are shown. -/
inductive ValueError where
  | zeroDenominator (numerator : String)
  | invalidOperation (op left right : String)
  deriving DecidableEq, Repr

namespace ValueError

/-- What an error says, without its kind. -/
def detail : ValueError → String
  | .zeroDenominator n => "Cannot divide " ++ n ++ " by 0"
  | .invalidOperation op l r => "Cannot compute " ++ l ++ " " ++ op ++ " " ++ r

/-- The whole text of an error. -/
def message (e : ValueError) : String :=
  (match e with
    | .zeroDenominator _ => "ZeroDenominator: "
    | .invalidOperation _ _ _ => "InvalidOperation: ") ++ e.detail ++ "\n"

end ValueError

/-- The 64-bit word of an integer in range. -/
def int64? (i : Int) : Option Int64 :=
  if -0x8000000000000000 ≤ i ∧ i < 0x8000000000000000 then some (Int64.ofInt i) else none

namespace Value

variable {N : Type} [Number N]

/-- The error of an operator on two values. -/
def incomputable (op : String) (l r : Value N) : ValueError :=
  .invalidOperation op l.display r.display

/-- An operator from what it does on integers and on numbers. -/
def arithmetic (op : String) (onInts : Int → Int → Option Int64) (onNumbers : N → N → N) :
    Value N → Value N → Except ValueError (Value N)
  | .null, _ => .ok .null
  | _, .null => .ok .null
  | .integer l, .integer r =>
    match onInts l.toInt r.toInt with
    | some i => .ok (.integer i)
    | none => .error (incomputable op (.integer l : Value N) (.integer r))
  | l, r =>
    match l.number?, r.number? with
    | some x, some y => .ok (.float (onNumbers x y))
    | _, _ => .error (incomputable op l r)

def add : Value N → Value N → Except ValueError (Value N) :=
  arithmetic "+" (fun l r => int64? (l + r)) (· + ·)

def sub : Value N → Value N → Except ValueError (Value N) :=
  arithmetic "-" (fun l r => int64? (l - r)) (· - ·)

def mul : Value N → Value N → Except ValueError (Value N) :=
  arithmetic "*" (fun l r => int64? (l * r)) (· * ·)

/-- The quotient is a number, also that of two integers. -/
def div : Value N → Value N → Except ValueError (Value N)
  | .null, _ => .ok .null
  | _, .null => .ok .null
  | l, r =>
    match l.number?, r.number? with
    | some x, some y =>
      if Number.eq y Number.zero then .error (.zeroDenominator l.display) else .ok (.float (x / y))
    | _, _ => .error (incomputable "/" l r)

/-- Does a value stand for the number 0? -/
def isZero (v : Value N) : Bool := v.number?.any (Number.eq · Number.zero)

/-- The remainder of integers; it does not fit where the quotient does not. -/
def remInts (l r : Int) : Option Int64 := (int64? (l.tdiv r)).bind fun _ => int64? (l.tmod r)

/-- The remainder, with the sign of the dividend. A zero divisor is refused before all else. -/
def rem (l r : Value N) : Except ValueError (Value N) :=
  if r.isZero then .error (.zeroDenominator l.display)
  else arithmetic "%" remInts Number.rem l r

/-- The opposite. -/
def neg : Value N → Except ValueError (Value N)
  | .null => .ok .null
  | .integer i =>
    match int64? (-i.toInt) with
    | some j => .ok (.integer j)
    | none => .error (.invalidOperation "-" "" (toString i.toInt))
  | .float x => .ok (.float (-x))
  | v => .error (.invalidOperation "-" "" v.display)

end Value

end PrivateSql
