import PrivateSql.Execution.Accumulator
import PrivateSql.Expr.Evaluation
import PrivateSql.Expr.Substitution
import PrivateSql.Query.Basic
/-!
# Grouping

The rows of a query are put together in one pass: each row goes to the group with its key, a new
one when there is none yet, and updates the accumulators of that group. Groups stay in the order in
which they first appear.

* `cell` — the value of an expression on a row, `NULL` for a division by zero;
* `groupRows` — the groups of some rows;
* `Group.aggregates` — the values of the aggregates of a group, in place of the aggregates.
-/

namespace PrivateSql

variable {N : Type} [Number N]

/-- The value of an expression on a row; a division by zero gives `NULL`. -/
def cell (b : Bindings N) (e : Expr N) : Except QueryError (Value N) :=
  match e.evaluate b with
  | .error (.operation (.zeroDenominator _)) => .ok .null
  | r => r

/-- The values of some expressions on a row. -/
def cells (b : Bindings N) (es : List (Expr N)) : Except QueryError (List (Value N)) :=
  es.mapM (cell b)

/-- The function of an aggregate. -/
def Expr.function? : Expr N → Option AggregateFunction
  | .aggregate f _ => some f
  | .aggregateRows f => some f
  | _ => none

/-- What an aggregate is fed on a row: its argument, or a mark for the row itself. -/
def aggregateInput (b : Bindings N) : Expr N → Except QueryError (Value N)
  | .aggregate _ e => cell b e
  | _ => .ok (.boolean true)

/-- A group: its key, the values of the columns on its first row, and the accumulators of the
aggregates of the query. -/
structure Group (N : Type) where
  key : List (Value N)
  bindings : Bindings N
  states : List (Accumulator N)

namespace Group

/-- A group before its first row. -/
def fresh (aggregates : List (Expr N)) (key : List (Value N)) (b : Bindings N) : Group N :=
  ⟨key, b, aggregates.filterMap fun e => e.function?.map Accumulator.fresh⟩

/-- Update the accumulators of some aggregates with a row. -/
def updateStates (b : Bindings N) :
    List (Expr N) → List (Accumulator N) → Except QueryError (List (Accumulator N))
  | e :: es, a :: as => do
    let v ← aggregateInput b e
    let a ← a.update v
    let as ← updateStates b es as
    .ok (a :: as)
  | _, _ => .ok []

/-- One more row. -/
def update (aggregates : List (Expr N)) (b : Bindings N) (g : Group N) :
    Except QueryError (Group N) := do
  let states ← updateStates b aggregates g.states
  .ok { g with states }

/-- The value of each aggregate, in place of the aggregate. -/
def aggregates (aggregates : List (Expr N)) (g : Group N) : Substitution N :=
  .ofList ((aggregates.zip g.states).map fun p => (p.1, .ofValue p.2.result))

end Group

/-- The groups after a row with this key: its group is updated, or added at the end. -/
def addRow (aggregates : List (Expr N)) (b : Bindings N) (key : List (Value N)) :
    List (Group N) → Except QueryError (List (Group N))
  | [] => do
    let g ← (Group.fresh aggregates key b).update aggregates b
    .ok [g]
  | g :: gs =>
    if g.key = key then do
      let g ← g.update aggregates b
      .ok (g :: gs)
    else do
      let gs ← addRow aggregates b key gs
      .ok (g :: gs)

/-- The groups of some rows. -/
def groupRows (keys aggregates : List (Expr N)) (rows : List (Bindings N)) :
    Except QueryError (List (Group N)) :=
  rows.foldlM (fun groups b => do
    let key ← cells b keys
    addRow aggregates b key groups) []

/-- The groups of a query. Without keys there is always one, also when there is no row. -/
def queryGroups (q : Query N) (rows : List (Bindings N)) : Except QueryError (List (Group N)) := do
  let groups ← groupRows q.groupBy q.aggregates rows
  if groups.isEmpty && q.groupBy.isEmpty then
    .ok [Group.fresh q.aggregates [] PathMap.empty]
  else
    .ok groups

end PrivateSql
