import PrivateSql.Plan.Recombination
import PrivateSql.Execution.Dataset
/-!
# Plans of private queries

A private query is split in two. The inner query gives, for each group, its keys and the raw
aggregates that can be noised; the outer query reads the rows of the inner one, puts the aggregates
together again, and filters, orders and cuts the result. Only the inner query reads private rows.

* `Plan.of` — the plan of a query, from the catalog alone;
* `Preparation.of` — the plan of a query with the exact rows of its inner query.
-/

namespace PrivateSql

/-- A column of the inner query that is noised. -/
structure NoisedColumn (N : Type) where
  aggregate : Expr N
  dataType : DataType
  sensitivity : Option N

namespace NoisedColumn

variable {N : Type}

/-- The name of the column. -/
def name (c : NoisedColumn N) : String := c.aggregate.columnName

/-- The function of the column. -/
def function (c : NoisedColumn N) : AggregateFunction :=
  match c.aggregate with
  | .aggregate f _ => f
  | .aggregateRows f => f
  | _ => .count

end NoisedColumn

/-- A private query split in two. -/
structure Plan (N : Type) where
  inner : Query N
  outer : Query N
  /-- The names of the group keys, the first columns of the inner query. -/
  keys : List String
  /-- The columns after the keys. -/
  columns : List (NoisedColumn N)
  /-- The names, the types and the sensitivities of the columns that the query gives; only a raw
  aggregate has one. -/
  names : List String
  types : List DataType
  sensitivities : List (Option N)
  /-- The position among the noised columns of the count that groups are suppressed by. -/
  threshold : Option Nat
  /-- The number of rows that the catalog declares. -/
  tableRows : Nat

namespace Plan

variable {N : Type} [Number N]

/-- The path of the rows of the inner query. -/
def exactPath : String := "exact"

/-- The first word of the names of group keys. -/
def keyWord : String := "key"

/-- The name of the column of a group key. -/
def keyName (key : Expr N) : String := generatedNameOfTree keyWord key.tree

/-- The names of the columns of the inner query. -/
def exactNames (p : Plan N) : List String := p.keys ++ p.columns.map (·.name)

/-- The text of a plan. -/
def display (p : Plan N) : String :=
  "inner: " ++ p.inner.display ++ "\nouter: " ++ p.outer.display ++ "\n"

/-- The expressions outside of aggregates are read from the keys: a key itself, and a column that
means the same one as a key. -/
def keyReplacements (q : Query N) (scope : Scope N) : Substitution N :=
  let keys := Substitution.ofList (q.groupBy.map fun key => (key, .ofColumn (keyName key)))
  (q.outputExprs.flatMap (·.columns)).foldl
    (fun s c =>
      match (q.groupKey? scope (.column c)).bind (q.groupBy[·]?) with
      | some key => s.insertNew (.column c) (.ofColumn (keyName key))
      | none => s)
    keys

/-- The table that a query reads. A private query reads no other query. -/
def sourceTable (q : Query N) (catalog : Catalog N) : Except QueryError (Schema N) := do
  match ← q.relation with
  | .table name _ => catalog.table name
  | .derived _ _ => throw (.unsupported .privateDerived)

/-- The raw aggregates of a query with groups include the count of their rows. -/
def withRowCount (q : Query N) (raw : List (Expr N)) : List (Expr N) :=
  if q.groupBy.isEmpty then raw else raw ++ [.aggregateRows .count]

/-- The query of the keys and the raw aggregates. -/
def innerQuery (q : Query N) (raw : List (Expr N)) : Query N where
  select := q.groupBy.map (fun key => .of key (some (keyName key)))
    ++ raw.map (fun e => .of e (some e.columnName))
  relations := q.relations
  selection := q.selection
  groupBy := q.groupBy
  having := none
  orderBy := []
  limit := none

/-- The query over the rows of the inner one. -/
def outerQuery (q inner : Query N) (replacements : Substitution N) : Query N where
  select := q.select.map fun item => .of (item.expr.replace replacements) (some item.name)
  relations := [.derived inner ⟨exactPath⟩]
  selection := none
  groupBy := []
  having := q.having.map (·.replace replacements)
  orderBy := q.orderBy.map fun item => ⟨item.expr.replace replacements, item.ascending⟩
  limit := q.limit

/-- The sensitivity of what is selected, when it is a raw aggregate. -/
def outputSensitivity (scope : Scope N) (e : Expr N) : Option N :=
  match e with
  | .aggregate f x => if f.isRaw then (Expr.aggregate f x).sensitivity scope else none
  | .aggregateRows f => if f.isRaw then (Expr.aggregateRows f : Expr N).sensitivity scope else none
  | _ => none

/-- The plan of a query. -/
def of (q : Query N) (catalog : Catalog N) : Except QueryError (Plan N) := do
  let scope ← q.bind catalog
  let table ← sourceTable q catalog
  if !q.isAggregate then throw (.unsupported (.notAggregating q.display))
  let aggregates := q.aggregates
  let recombined ← aggregates.mapM Recombination.of
  let replacements := (aggregates.zip recombined).foldl
    (fun s (e, r) => s.insert e r.formula) (keyReplacements q scope)
  let raw := Query.distinct [] (withRowCount q (recombined.flatMap (·.raw)))
  let inner := innerQuery q raw
  return {
    inner
    outer := outerQuery q inner replacements
    keys := q.groupBy.map keyName
    columns := raw.map fun e => ⟨e, e.dataType scope, e.sensitivity scope⟩
    names := q.names
    types := q.select.map (·.expr.dataType scope)
    sensitivities := q.select.map (outputSensitivity scope ·.expr)
    threshold :=
      if q.groupBy.isEmpty then none
      else raw.findIdx? (·.same (.aggregateRows .count))
    tableRows := table.rows }

end Plan

/-- Why a query has no plan or no exact rows. -/
inductive PlanError where
  | query (error : QueryError)
  | reader (error : ReaderError)
  deriving DecidableEq, Repr

/-- The text of an error; an error inside it keeps its own line. -/
def PlanError.message : PlanError → String
  | .query e => "Query: " ++ e.message ++ "\n"
  | .reader e => "Reader: " ++ e.message ++ "\n"

/-- A plan with the exact rows of its inner query. -/
structure Preparation (N : Type) where
  plan : Plan N
  exact : Rowset N

/-- Plan a query and execute its inner query: the only step that reads private rows. -/
def Preparation.of {N : Type} [Number N] (q : Query N) (d : Dataset N) :
    Except PlanError (Preparation N) :=
  match Plan.of q d.catalog with
  | .error e => .error (.query e)
  | .ok plan =>
    match d.run plan.inner with
    | .error e => .error (.reader e)
    | .ok exact => .ok ⟨plan, exact⟩

end PrivateSql
