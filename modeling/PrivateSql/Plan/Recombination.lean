import PrivateSql.Query.Basic
import PrivateSql.Naming.Generated
/-!
# Recombination of raw aggregates

Only counts, sums and extrema are noised. A mean, a variance or a deviation is put together from
them, so each aggregate of a query stands for a formula over columns that hold raw aggregates. Such
a column is named after the aggregate it holds.

* `Expr.columnName` — the name of the column of a raw aggregate;
* `Recombination.of` — the raw aggregates that an aggregate needs, and the formula over them.
-/

namespace PrivateSql

variable {N : Type}

/-- The name of the column that holds a raw aggregate. -/
def Expr.columnName (e : Expr N) : String :=
  let word := match e with
    | .aggregate f _ => Text.toLower f.name
    | .aggregateRows f => Text.toLower f.name
    | _ => "agg"
  generatedNameOfTree word e.tree

/-- The raw aggregates that an aggregate needs, in the order they are first needed, and its value
over the columns that hold them. -/
structure Recombination (N : Type) where
  raw : List (Expr N)
  formula : Expr N

namespace Recombination

/-- A raw aggregate, read from its column. -/
def ofRaw (e : Expr N) : Recombination N := ⟨[e], .ofColumn e.columnName⟩

/-- The formula of the mean: the sum over the count. -/
def meanFormula (count sum : Expr N) : Expr N := .nested (.binary sum "/" count)

/-- The formula of the variance: the mean of the squares less the square of the mean. -/
def varianceFormula (count sum squares : Expr N) : Expr N :=
  let mean := meanFormula count sum
  .nested (.binary (.binary squares "/" count) "-" (.binary mean "*" mean))

/-- The square of an argument. An operator is put between parentheses first. -/
def square (argument : Expr N) : Expr N :=
  let factor := match argument with
    | .binary l op r => .nested (.binary l op r)
    | e => e
  .binary factor "*" factor

/-- What an aggregate is put together from. Without an argument only raw aggregates are. -/
def of : Expr N → Except QueryError (Recombination N)
  | .aggregateRows f =>
    if f.isRaw then .ok (ofRaw (.aggregateRows f))
    else .error (.invalidExpression (Expr.aggregateRows f : Expr N).display)
  | .aggregate f argument =>
    let count := Expr.aggregate .count argument
    let sum := Expr.aggregate .sum argument
    let squares := Expr.aggregate .sum (square argument)
    let column (e : Expr N) : Expr N := .ofColumn e.columnName
    match f with
    | .mean => .ok ⟨[count, sum], meanFormula (column count) (column sum)⟩
    | .variance =>
      .ok ⟨[count, sum, squares], varianceFormula (column count) (column sum) (column squares)⟩
    | .deviation =>
      .ok ⟨[count, sum, squares],
        .ofCall "SQRT" [varianceFormula (column count) (column sum) (column squares)]⟩
    | _ => .ok (ofRaw (.aggregate f argument))
  | e => .error (.invalidExpression e.display)

end Recombination

end PrivateSql
