import PrivateSql.Execution.Grouping
import PrivateSql.Execution.Sorting
import PrivateSql.Rowset.Basic
/-!
# Execution

A query is executed over the rows of its relation: the rows that satisfy its condition are put
together, the selected expressions are evaluated for each group or row, those that satisfy the
second condition are kept, then ordered, then cut to the limit.

* `rowBindings` — the values of the columns on a row;
* `Query.execute` — the answer of a query.
-/

namespace PrivateSql

variable {N : Type} [Number N]

/-- The values of the columns on a row, under the path of their relation. -/
def rowBindings (path : List String) (names : List String) (row : List (Value N)) : Bindings N :=
  PathMap.ofList ((names.zip row).map fun c => (path ++ [c.1], c.2))

/-- Does a row satisfy a condition? Without a condition every row does. -/
def satisfies (b : Bindings N) : Option (Expr N) → Except QueryError Bool
  | none => .ok true
  | some e => do
    let v ← cell b e
    .ok (v.truth? == some true)

/-- The rows that satisfy a condition. -/
def filterRows (condition : Option (Expr N)) :
    List (Bindings N) → Except QueryError (List (Bindings N))
  | [] => .ok []
  | b :: bs => do
    let kept ← satisfies b condition
    let rest ← filterRows condition bs
    .ok (if kept then b :: rest else rest)

/-- A row to give, with the values it is ordered by. -/
structure OutputRow (N : Type) where
  values : List (Value N)
  keys : List (Value N)

namespace Query

/-- The row a query gives for some bindings, none when it does not satisfy the second condition.
That condition and the ordering may name the columns given. -/
def outputRow (q : Query N) (b : Bindings N) (aggregates : Substitution N) :
    Except QueryError (Option (OutputRow N)) := do
  let values ← cells b (q.select.map fun item => item.expr.replace aggregates)
  let b := b.insertAll ((q.names.zip values).map fun c => ([c.1], c.2))
  let kept ← satisfies b (q.having.map (·.replace aggregates))
  if kept then
    let keys ← cells b (q.orderBy.map fun item => item.expr.replace aggregates)
    .ok (some ⟨values, keys⟩)
  else
    .ok none

/-- The rows a query gives, before they are ordered. -/
def outputRows (q : Query N) : List (Bindings N × Substitution N) →
    Except QueryError (List (OutputRow N))
  | [] => .ok []
  | (b, aggregates) :: rest => do
    let row ← q.outputRow b aggregates
    let rows ← outputRows q rest
    .ok (row.toList ++ rows)

/-- The rows or the groups of a query, each with the values of its aggregates. -/
def sources (q : Query N) (rows : List (Bindings N)) :
    Except QueryError (List (Bindings N × Substitution N)) :=
  if q.isAggregate then do
    let groups ← queryGroups q rows
    .ok (groups.map fun g => (g.bindings, g.aggregates q.aggregates))
  else
    .ok (rows.map fun b => (b, Substitution.empty))

/-- The answer of a query over the rows of a relation, whose columns have these names and are
visible under this path. -/
def execute (q : Query N) (path names : List String) (rows : List (List (Value N))) :
    Except QueryError (Rowset N) := do
  let kept ← filterRows q.selection (rows.map (rowBindings path names))
  let sources ← q.sources kept
  let outputs ← q.outputRows sources
  let directions := q.orderBy.map (·.ascending)
  let sorted := stableSort (fun l r => compareKeys directions l.keys r.keys) outputs
  let limited := match q.rowLimit with
    | some n => sorted.take n
    | none => sorted
  .ok ⟨q.names, limited.map (·.values)⟩

end Query

end PrivateSql
