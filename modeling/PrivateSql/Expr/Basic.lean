import PrivateSql.Value.DataType
import PrivateSql.Path.Identifier
import PrivateSql.Tree.Render
/-!
# Expressions

Scalar and aggregate expressions of queries. Operators and the names of scalar functions are texts,
so that a tree can be built before anyone asks whether it can be evaluated.

* `Expr.tree` — the syntax tree of an expression, `Expr.display` — its text;
* `Expr.subterms` — the expression and all those inside it, outermost first;
* `Expr.aggregates`, `Expr.columns`, `Expr.aggregateDepth` — what they are searched for.
-/

namespace PrivateSql

/-- A constant, with the text it is written with. -/
structure Literal (N : Type) where
  value : Value N
  text : String

/-- The constant of a value, written as a literal of a query. -/
def Literal.ofValue {N : Type} [Number N] (v : Value N) : Literal N := ⟨v, v.sql⟩

/-- The functions that summarise a group of rows. -/
inductive AggregateFunction where
  | count
  | sum
  | min
  | max
  | mean
  | variance
  | deviation
  deriving DecidableEq, Repr, Inhabited

namespace AggregateFunction

/-- The name of a function. -/
def name : AggregateFunction → String
  | .count => "COUNT"
  | .sum => "SUM"
  | .min => "MIN"
  | .max => "MAX"
  | .mean => "AVG"
  | .variance => "VAR"
  | .deviation => "STD"

/-- The function with this name, in any case; some have several names. -/
def ofName? (s : String) : Option AggregateFunction :=
  match Text.toUpper s with
  | "COUNT" => some .count
  | "SUM" => some .sum
  | "MIN" => some .min
  | "MAX" => some .max
  | "AVG" | "MEAN" => some .mean
  | "VAR" | "VARIANCE" | "VAR_POP" => some .variance
  | "STD" | "STDDEV" | "STDDEV_POP" => some .deviation
  | _ => none

/-- Raw functions are noised as they are; the others are put together from raw ones. -/
def isRaw : AggregateFunction → Bool
  | .count | .sum | .min | .max => true
  | _ => false

end AggregateFunction

/-- The names of the scalar functions. -/
def scalarFunctions : List String := ["ABS", "SQRT", "CEIL", "FLOOR", "ROUND"]

/-- An expression of a query. -/
inductive Expr (N : Type) where
  | literal (l : Literal N)
  | column (id : Identifier)
  | unary (op : String) (operand : Expr N)
  | binary (left : Expr N) (op : String) (right : Expr N)
  /-- An expression between parentheses. -/
  | nested (inner : Expr N)
  | isNull (operand : Expr N) (negated : Bool)
  | call (name : String) (args : List (Expr N))
  | aggregate (function : AggregateFunction) (argument : Expr N)
  /-- An aggregate of the rows themselves, written with a star. -/
  | aggregateRows (function : AggregateFunction)

namespace Expr

variable {N : Type}

/-- The constant of a value. -/
def ofValue [Number N] (v : Value N) : Expr N := .literal (.ofValue v)

/-- The call of a scalar function, whose name is written in upper case. -/
def ofCall (name : String) (args : List (Expr N)) : Expr N := .call (Text.toUpper name) args

/-- The column with this name. -/
def ofColumn (name : String) : Expr N := .column ⟨name⟩

/-- The aggregate of an argument, or of the rows when there is none. -/
def ofAggregate (f : AggregateFunction) : Option (Expr N) → Expr N
  | some a => .aggregate f a
  | none => .aggregateRows f

mutual
/-- The syntax tree of an expression. -/
def tree : Expr N → Tree
  | .literal l => .branch .expression [.leaf .literal l.text]
  | .column id => .branch .expression [.leaf .identifier id.text]
  | .unary op e => .branch .expression [.leaf .op op, tree e]
  | .binary l op r => .branch .expression [tree l, .leaf .op op, tree r]
  | .nested e => .branch .expression [.leaf .token "(", tree e, .leaf .token ")"]
  | .isNull e negated =>
    .branch .expression
      (tree e :: .leaf .token "IS" :: (if negated then [.leaf .token "NOT"] else [])
        ++ [.leaf .token "NULL"])
  | .call name args =>
    .branch .expression
      [.leaf .funcName name, .leaf .token "(", .branch .sequence (trees args), .leaf .token ")"]
  | .aggregate f e =>
    .branch .expression [.leaf .funcName f.name, .leaf .token "(", tree e, .leaf .token ")"]
  | .aggregateRows f =>
    .branch .expression
      [.leaf .funcName f.name, .leaf .token "(", .leaf .token "*", .leaf .token ")"]

/-- The syntax trees of some expressions. -/
def trees : List (Expr N) → List Tree
  | [] => []
  | e :: es => tree e :: trees es
end

/-- The text of an expression. -/
def display (e : Expr N) : String := e.tree.render

/-- Have two expressions the same shape and the same texts? -/
def same (e e' : Expr N) : Bool := e.tree.same e'.tree

mutual
/-- The expression and those inside it, outermost first and from left to right. -/
def subterms : Expr N → List (Expr N)
  | .literal l => [.literal l]
  | .column id => [.column id]
  | .unary op e => .unary op e :: subterms e
  | .binary l op r => .binary l op r :: (subterms l ++ subterms r)
  | .nested e => .nested e :: subterms e
  | .isNull e negated => .isNull e negated :: subterms e
  | .call name args => .call name args :: subtermsAll args
  | .aggregate f e => .aggregate f e :: subterms e
  | .aggregateRows f => [.aggregateRows f]

/-- The expressions inside some expressions. -/
def subtermsAll : List (Expr N) → List (Expr N)
  | [] => []
  | e :: es => subterms e ++ subtermsAll es
end

def isAggregate : Expr N → Bool
  | .aggregate _ _ => true
  | .aggregateRows _ => true
  | _ => false

/-- The column an expression is, if it is one. -/
def column? : Expr N → Option Identifier
  | .column id => some id
  | _ => none

/-- The aggregates inside an expression, outermost first. -/
def aggregates (e : Expr N) : List (Expr N) := e.subterms.filter isAggregate

def hasAggregate (e : Expr N) : Bool := !e.aggregates.isEmpty

/-- The columns inside an expression, from left to right. -/
def columns (e : Expr N) : List Identifier := e.subterms.filterMap column?

mutual
/-- How many aggregates are nested: 2 for a sum of counts. -/
def aggregateDepth : Expr N → Nat
  | .literal _ => 0
  | .column _ => 0
  | .unary _ e => aggregateDepth e
  | .binary l _ r => max (aggregateDepth l) (aggregateDepth r)
  | .nested e => aggregateDepth e
  | .isNull e _ => aggregateDepth e
  | .call _ args => aggregateDepthAll args
  | .aggregate _ e => aggregateDepth e + 1
  | .aggregateRows _ => 1

/-- The depth of the deepest of some expressions. -/
def aggregateDepthAll : List (Expr N) → Nat
  | [] => 0
  | e :: es => max (aggregateDepth e) (aggregateDepthAll es)
end

end Expr

end PrivateSql
