import PrivateSql.Binary64.Rounding
/-!
# Arithmetic of binary64

The four operations, the square root, the logarithm and the power are those of the floating-point
unit. A NaN operand is the result, the first one before the second; an operation that is invalid on
numbers gives the negative NaN.
-/

namespace PrivateSql.Binary64

def toFloat (x : Binary64) : Float := Float.ofBits x.bits

/-- The result of an operation on numbers. -/
def ofFloat (f : Float) : Binary64 := if f.isNaN then invalid else ⟨f.toBits⟩

/-- Apply an operation of one operand. -/
def liftUnary (op : Float → Float) (x : Binary64) : Binary64 :=
  if x.isNaN then x else ofFloat (op x.toFloat)

/-- Apply an operation of two operands. -/
def liftBinary (op : Float → Float → Float) (x y : Binary64) : Binary64 :=
  if x.isNaN then x else if y.isNaN then y else ofFloat (op x.toFloat y.toFloat)

def add : Binary64 → Binary64 → Binary64 := liftBinary Float.add

def sub : Binary64 → Binary64 → Binary64 := liftBinary Float.sub

def mul : Binary64 → Binary64 → Binary64 := liftBinary Float.mul

def div : Binary64 → Binary64 → Binary64 := liftBinary Float.div

def sqrt : Binary64 → Binary64 := liftUnary Float.sqrt

/-- The natural logarithm. -/
def log : Binary64 → Binary64 := liftUnary Float.log

/-- `x` to the power `y`; a power 0, and any power of 1, is 1 even next to a NaN. -/
def pow (x y : Binary64) : Binary64 := ofFloat (Float.pow x.toFloat y.toFloat)

end PrivateSql.Binary64
