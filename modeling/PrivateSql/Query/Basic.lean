import PrivateSql.Expr.Basic
import PrivateSql.Path.Map
/-!
# Queries

A query reads relations, tables or other queries, and selects expressions of their columns.

* `Query.tree`, `Query.display` — the syntax tree and the text of a query;
* `Query.names` — the names of the columns it gives;
* `Query.aggregates` — the different aggregates of a query, in order of appearance;
* `Query.relation` — the single relation it reads.
-/

namespace PrivateSql

/-- A selected expression, with the name it is given. -/
structure SelectItem (N : Type) where
  expr : Expr N
  label : Option Identifier

/-- An expression that rows are ordered by. -/
structure OrderItem (N : Type) where
  expr : Expr N
  ascending : Bool

/-- What a query reads: a table, or another query. -/
inductive Relation (Q : Type) where
  | table (name : Identifier) (label : Option Identifier)
  | derived (query : Q) (label : Identifier)

/-- A query. -/
structure Query (N : Type) where
  select : List (SelectItem N)
  relations : List (Relation (Query N))
  /-- The condition on the rows that are read. -/
  selection : Option (Expr N)
  groupBy : List (Expr N)
  /-- The condition on the rows that are given. -/
  having : Option (Expr N)
  orderBy : List (OrderItem N)
  limit : Option (Literal N)

namespace SelectItem

variable {N : Type}

/-- The item with this name, if there is one. -/
def of (e : Expr N) (label : Option String) : SelectItem N := ⟨e, label.map Identifier.mk⟩

/-- The name of the column an item gives: the alias, else the name of the column, else the text. -/
def name (item : SelectItem N) : String :=
  match item.label with
  | some a => a.text
  | none =>
    match item.expr.column? with
    | some id => id.name
    | none => item.expr.display

/-- The tree of an item. -/
def tree (item : SelectItem N) : Tree :=
  match item.label with
  | some a => .branch .clause [item.expr.tree, .leaf .token "AS", .leaf .identifier a.text]
  | none => .branch .clause [item.expr.tree]

end SelectItem

/-- The tree of an ordering. -/
def OrderItem.tree {N : Type} (item : OrderItem N) : Tree :=
  .branch .clause [item.expr.tree, .leaf .token (if item.ascending then "ASC" else "DESC")]

/-- Is a node of a query the tree of a selected expression? The other clauses are orderings. -/
def Tree.isSelectItem (t : Tree) : Bool :=
  decide (t.kind = .clause) &&
    !(t.children.any fun c => c.text? == some "ASC" || c.text? == some "DESC")

namespace Relation

variable {Q : Type}

def alias? : Relation Q → Option Identifier
  | .table _ label => label
  | .derived _ label => some label

/-- The path under which the columns of the relation are visible. -/
def path : Relation Q → List String
  | .table name none => name.parts
  | .table _ (some a) => [a.text]
  | .derived _ a => [a.text]

/-- Can the identifier mean a column of this relation? A bare one can; a qualified one can when its
qualifier is the alias or, without alias, the name of the table. -/
def matchesQualifier (r : Relation Q) (id : Identifier) : Except QueryError Bool := do
  let (qualifier, _) ← id.splitAlias
  match qualifier with
  | none => .ok true
  | some q =>
    match r with
    | .table name none => .ok (Text.eqIgnoringAsciiCase name.name q)
    | .table _ (some a) => .ok (Text.eqIgnoringAsciiCase a.text q)
    | .derived _ a => .ok (Text.eqIgnoringAsciiCase a.text q)

end Relation

namespace Query

variable {N : Type}

/-- The trees of the clauses that follow the relations. -/
def clauseTrees (selection : Option (Expr N)) (groupBy : List (Expr N)) (having : Option (Expr N))
    (orderBy : List (OrderItem N)) (limit : Option (Literal N)) : List Tree :=
  (match selection with
    | some e => [.leaf .token "WHERE", e.tree]
    | none => []) ++
  (if groupBy.isEmpty then []
    else [.leaf .token "GROUP BY", .branch .sequence (Expr.trees groupBy)]) ++
  (match having with
    | some e => [.leaf .token "HAVING", e.tree]
    | none => []) ++
  (if orderBy.isEmpty then []
    else [.leaf .token "ORDER BY", .branch .sequence (orderBy.map OrderItem.tree)]) ++
  (match limit with
    | some l => [.leaf .token "LIMIT", .leaf .literal l.text]
    | none => [])

mutual
/-- The syntax tree of a query. -/
def tree : Query N → Tree
  | ⟨select, relations, selection, groupBy, having, orderBy, limit⟩ =>
    .branch .query
      (.leaf .token "SELECT" :: .branch .sequence (select.map SelectItem.tree)
        :: .leaf .token "FROM" :: .branch .sequence (relationTrees relations)
        :: clauseTrees selection groupBy having orderBy limit)

/-- The tree of a relation. -/
def relationTree : Relation (Query N) → Tree
  | .table name none => .branch .relation [.leaf .identifier name.text]
  | .table name (some a) =>
    .branch .relation [.leaf .identifier name.text, .leaf .token "AS", .leaf .identifier a.text]
  | .derived query a =>
    .branch .relation
      [.leaf .token "(", tree query, .leaf .token ")", .leaf .token "AS", .leaf .identifier a.text]

/-- The trees of some relations. -/
def relationTrees : List (Relation (Query N)) → List Tree
  | [] => []
  | r :: rs => relationTree r :: relationTrees rs
end

/-- The text of a query. -/
def display (q : Query N) : String := q.tree.render

/-- The greatest number of rows a query gives, if it says one. -/
def rowLimit (q : Query N) : Option Nat :=
  match q.limit with
  | some l =>
    match l.value with
    | .integer i => if 0 ≤ i.toInt then some i.toInt.toNat else none
    | _ => none
  | none => none

/-- The names of the columns a query gives. -/
def names (q : Query N) : List String := q.select.map (·.name)

/-- The expressions that may hold aggregates: what is selected, what is asked of the rows given,
what they are ordered by. -/
def outputExprs (q : Query N) : List (Expr N) :=
  q.select.map (·.expr) ++ q.having.toList ++ q.orderBy.map (·.expr)

/-- The expressions of a list that differ from those before them. -/
def distinct (seen : List (Expr N)) : List (Expr N) → List (Expr N)
  | [] => []
  | e :: es => if seen.any (·.same e) then distinct seen es else e :: distinct (e :: seen) es

/-- The different aggregates of a query, in order of appearance. -/
def aggregates (q : Query N) : List (Expr N) := distinct [] (q.outputExprs.flatMap (·.aggregates))

/-- Does the query put rows together? -/
def isAggregate (q : Query N) : Bool := !q.groupBy.isEmpty || !q.aggregates.isEmpty

/-- The single relation a query reads. -/
def relation (q : Query N) : Except QueryError (Relation (Query N)) :=
  match q.relations with
  | [r] => .ok r
  | [] => .error (.unsupported .missingFrom)
  | _ => .error (.unsupported .manyRelations)

end Query

end PrivateSql
