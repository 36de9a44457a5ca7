import PrivateSql.Execution.Basic
import PrivateSql.Query.Binding
/-!
# Datasets

Tables held in memory, with the catalog that describes them. Queries over a dataset are bound to the
catalog and executed exactly.

* `Table.of` — a table from rows that fit its schema;
* `Dataset.ofTables` — the dataset of some tables;
* `Dataset.run`, `Dataset.runTyped` — the answer of a query, by rows and by typed columns.
-/

namespace PrivateSql

/-- Why a dataset has no answer. -/
inductive ReaderError where
  /-- A row does not have one value for each of the columns. -/
  | rowWidth (table : String) (columns : Nat)
  | query (error : QueryError)
  | conversion (error : ConversionError)
  deriving DecidableEq, Repr

/-- The text of an error; an error inside it keeps its own line. -/
def ReaderError.message : ReaderError → String
  | .rowWidth t n =>
    "Dataset: Dataset error " ++ t ++ " expects rows of " ++ toString n ++ " values\n"
  | .query e => "Query: " ++ e.message ++ "\n"
  | .conversion e => e.message ++ "\n"

/-- Rows with their schema. -/
structure Table (N : Type) where
  schema : Schema N
  rows : List (List (Value N))

variable {N : Type} [Number N]

namespace Table

/-- Cast the values of a row to the types of its columns. -/
def castRow : List DataType → List (Value N) → Except ReaderError (List (Value N))
  | t :: ts, v :: vs =>
    match t.cast v with
    | .ok v => do
      let vs ← castRow ts vs
      .ok (v :: vs)
    | .error e => .error (.conversion e)
  | _, _ => .ok []

/-- A row that fits the schema, its values cast. -/
def fitRow (schema : Schema N) (row : List (Value N)) : Except ReaderError (List (Value N)) :=
  if row.length ≠ schema.fields.length then
    .error (.rowWidth schema.name schema.fields.length)
  else
    castRow schema.types row

/-- A table from rows that fit its schema. -/
def of (schema : Schema N) (rows : List (List (Value N))) : Except ReaderError (Table N) := do
  let rows ← rows.mapM (fitRow schema)
  .ok ⟨schema, rows⟩

end Table

/-- Tables held in memory, and the catalog that describes them. -/
structure Dataset (N : Type) where
  catalog : Catalog N
  tables : PathMap (Table N)

namespace Dataset

/-- The dataset of some tables; of two with the same path the last one stays. -/
def ofTables (l : List (Table N)) : Dataset N :=
  ⟨.ofSchemas (l.map (·.schema)),
    .ofList (l.map fun t => ((Identifier.mk t.schema.name).parts, t))⟩

/-- The table an identifier means. -/
def table (d : Dataset N) (id : Identifier) : Except QueryError (Table N) :=
  match d.tables.find id.parts with
  | .one t => .ok t
  | _ => .error (.unresolvedTable id.text)

/-- An answer or an error of a query, as those of a dataset. -/
def liftQuery {α : Type} : Except QueryError α → Except ReaderError α
  | .ok a => .ok a
  | .error e => .error (.query e)

/-- A converted value or a conversion error, as those of a dataset. -/
def liftConversion {α : Type} : Except ConversionError α → Except ReaderError α
  | .ok a => .ok a
  | .error e => .error (.conversion e)

mutual
/-- The answer of a query. -/
def run (d : Dataset N) : Query N → Except ReaderError (Rowset N)
  | ⟨select, relations, selection, groupBy, having, orderBy, limit⟩ => do
    let q : Query N := ⟨select, relations, selection, groupBy, having, orderBy, limit⟩
    let _ ← liftQuery (q.bind d.catalog)
    let (path, source) ← runRelations d relations
    liftQuery (q.execute path source.names source.rows)

/-- The path and the rows of the single relation of a query. -/
def runRelations (d : Dataset N) :
    List (Relation (Query N)) → Except ReaderError (List String × Rowset N)
  | [r] => runRelation d r
  | [] => .error (.query (.unsupported .missingFrom))
  | _ => .error (.query (.unsupported .manyRelations))

/-- The path and the rows of a relation. -/
def runRelation (d : Dataset N) : Relation (Query N) → Except ReaderError (List String × Rowset N)
  | .table name label => do
    let t ← liftQuery (d.table name)
    .ok (Relation.path (.table name label : Relation (Query N)), ⟨t.schema.names, t.rows⟩)
  | .derived query label => do
    let rows ← run d query
    .ok ([label.text], rows)
end

/-- The types of the columns a query gives. -/
def outputTypes (q : Query N) (scope : Scope N) : List DataType :=
  q.select.map fun item => item.expr.dataType scope

/-- The answer of a query with the types inferred for its columns. -/
def runTyped (d : Dataset N) (q : Query N) : Except ReaderError (TypedRowset N) := do
  let scope ← liftQuery (q.bind d.catalog)
  let rows ← d.run q
  liftConversion (TypedRowset.of rows (outputTypes q scope))

end Dataset

end PrivateSql
