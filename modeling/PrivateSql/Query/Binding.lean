import PrivateSql.Query.Basic
import PrivateSql.Catalog.Basic
import PrivateSql.Expr.Typing
/-!
# Binding

A query is bound to the catalog before it is executed: the columns of its relations are looked up,
every column it names has to be one of them, aggregates stand only where rows are put together, and
a column read outside of an aggregate is a group key.

* `Query.loadSymbols` — the columns of the relations of a query;
* `Query.bind` — the scope of a query, or why it cannot be executed;
* `Query.groupKey?` — the group key that an expression stands for.
-/

namespace PrivateSql.Query

variable {N : Type} [Number N]

mutual
/-- Register the columns of the relations of a query. -/
def loadSymbols (catalog : Catalog N) (table : SymbolTable N) :
    Query N → Except QueryError (SymbolTable N)
  | ⟨_, relations, _, _, _, _, _⟩ => loadRelations catalog table relations

/-- Register the columns of a relation, unless they are already. The columns of a query are the
expressions it selects, with their types and bounds. -/
def loadRelation (catalog : Catalog N) (table : SymbolTable N) :
    Relation (Query N) → Except QueryError (SymbolTable N)
  | .table name label =>
    let path := Relation.path (.table name label : Relation (Query N))
    if table.has path then .ok table
    else do
      let schema ← catalog.table name
      .ok (table.insert path (schema.fields.map fun f => ⟨f.name, f.dataType, f.bounds⟩)).2
  | .derived query label =>
    if table.has [label.text] then .ok table
    else do
      let inner ← loadSymbols catalog SymbolTable.empty query
      let scope := inner.scope
      .ok (table.insert [label.text] (query.select.map fun item =>
        ⟨item.name, item.expr.dataType scope, item.expr.bounds scope⟩)).2

/-- Register the columns of some relations. -/
def loadRelations (catalog : Catalog N) (table : SymbolTable N) :
    List (Relation (Query N)) → Except QueryError (SymbolTable N)
  | [] => .ok table
  | r :: rs => do
    let table ← loadRelation catalog table r
    loadRelations catalog table rs
end

mutual
/-- Are the columns of one of the relations registered? -/
def hasSymbols (table : SymbolTable N) : Query N → Bool
  | ⟨_, relations, _, _, _, _, _⟩ => anyHasSymbols table relations

/-- Are the columns of a relation registered, or those of a relation inside it? -/
def relationHasSymbols (table : SymbolTable N) : Relation (Query N) → Bool
  | .table name label => table.has (Relation.path (.table name label : Relation (Query N)))
  | .derived query label => table.has [label.text] || hasSymbols table query

/-- Are the columns of one of some relations registered? -/
def anyHasSymbols (table : SymbolTable N) : List (Relation (Query N)) → Bool
  | [] => false
  | r :: rs => relationHasSymbols table r || anyHasSymbols table rs
end

/-- Does an identifier name one of the columns a query gives, without regard to case? -/
def isOutput (names : List String) (id : Identifier) : Bool :=
  names.any fun n => Text.toLower n == Text.toLower id.text

/-- Check that the columns of some expressions are found, those that name an output apart. -/
def checkColumns (scope : Scope N) (outputs : List String) (es : List (Expr N)) :
    Except QueryError Unit :=
  (es.flatMap (·.columns)).forM fun c =>
    if isOutput outputs c then .ok () else do
      let _ ← scope.resolve c
      .ok ()

/-- Does a group key stand for an expression? Columns do for the columns they resolve to. -/
def isKey (scope : Scope N) (key e : Expr N) : Bool :=
  match key.column?, e.column? with
  | some k, some c =>
    match scope.locate k, scope.locate c with
    | .ok k', .ok c' => k'.1 == c'.1
    | _, _ => k == c
  | _, _ => key.same e

/-- The position of the group key that an expression stands for. -/
def groupKey? (q : Query N) (scope : Scope N) (e : Expr N) : Option Nat :=
  q.groupBy.findIdx? fun key => isKey scope key e

mutual
/-- Has an expression one value for a whole group? Group keys, aggregates, constants and the outputs
named do, and what is made of them. -/
def isGrouped (q : Query N) (scope : Scope N) (outputs : List String) (e : Expr N) : Bool :=
  (q.groupKey? scope e).isSome ||
    match e with
    | .literal _ => true
    | .aggregate _ _ => true
    | .aggregateRows _ => true
    | .column id => isOutput outputs id
    | .unary _ x => isGrouped q scope outputs x
    | .isNull x _ => isGrouped q scope outputs x
    | .nested x => isGrouped q scope outputs x
    | .binary l _ r => isGrouped q scope outputs l && isGrouped q scope outputs r
    | .call _ args => areGrouped q scope outputs args

/-- Have some expressions one value for a whole group? -/
def areGrouped (q : Query N) (scope : Scope N) (outputs : List String) : List (Expr N) → Bool
  | [] => true
  | e :: es => isGrouped q scope outputs e && areGrouped q scope outputs es
end

/-- In a query that puts rows together, what is selected has one value for a group; so has what the
rows given are filtered and ordered by, which may name outputs too. -/
def checkGrouping (q : Query N) (scope : Scope N) : Except QueryError Unit :=
  if !q.isAggregate then .ok ()
  else match (q.select.map (·.expr)).find? fun e => !isGrouped q scope [] e with
    | some e => .error (.unsupported (.ungrouped e.display))
    | none =>
      match (q.having.toList ++ q.orderBy.map (·.expr)).find?
          fun e => !isGrouped q scope q.names e with
      | some e => .error (.unsupported (.ungroupedOutput e.display))
      | none => .ok ()

/-- Check that aggregates stand where rows are put together, and are not nested. -/
def checkAggregates (q : Query N) : Except QueryError Unit :=
  if q.selection.any (·.hasAggregate) then .error (.unsupported .aggregateInWhere)
  else if q.groupBy.any (·.hasAggregate) then .error (.unsupported .aggregateInGroupBy)
  else match q.outputExprs.find? fun e => decide (1 < e.aggregateDepth) with
    | some e => .error (.unsupported (.nestedAggregate e.display))
    | none => .ok ()

/-- The columns a query can read, if it can be executed. -/
def bind (q : Query N) (catalog : Catalog N) : Except QueryError (Scope N) := do
  let table ← loadSymbols catalog SymbolTable.empty q
  let scope := table.scope
  checkColumns scope [] (q.select.map (·.expr) ++ q.selection.toList ++ q.groupBy)
  checkColumns scope q.names (q.having.toList ++ q.orderBy.map (·.expr))
  checkAggregates q
  checkGrouping q scope
  .ok scope

end PrivateSql.Query
