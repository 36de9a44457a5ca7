import PrivateSql.Execution.Basic
import PrivateSql.Query.Binding
import PrivateSql.Proofs.PathLookup
import PrivateSql.Proofs.Fallible
/-!
# Columns found among symbols and among values

What a query may read is known from the catalog, what it reads from the rows.  The columns of a
relation and the values of one of its rows stand under the same paths, so a column that is resolved
has a value on every row, and whatever relates the columns of a relation to the values of a row
relates what is resolved to what is found.

* `SymbolTable.scope_insert` — the columns visible from a single relation;
* `related_rowBindings` — the values of a row beside the columns of its relation;
* `Scope.find_of_resolve` — a column that is resolved has a value.
-/

namespace PrivateSql

variable {N : Type}

/-- The columns visible when one relation is registered. -/
def relationScope (path : List String) (symbols : List (Symbol N)) : Scope N :=
  ⟨PathMap.ofList (symbols.map fun s => (path ++ [s.name], s))⟩

/-- A single relation shows its columns, each under the path of the relation. -/
theorem SymbolTable.scope_insert (path : List String) (symbols : List (Symbol N)) :
    ((SymbolTable.empty : SymbolTable N).insert path symbols).2.scope =
      relationScope path symbols := by
  have hentries : ((SymbolTable.empty : SymbolTable N).insert path symbols).2.relations.entries =
      [(Path.normalize path, PathMap.ofList (symbols.map fun s => ([s.name], s)))] := rfl
  have hbelow := PathMap.ofList_below path (symbols.map fun s => ([s.name], s))
  simp only [SymbolTable.scope, hentries, List.flatMap_cons, List.flatMap_nil, List.append_nil,
    hbelow, List.map_map]
  rfl

/-- Nothing is registered in the empty table. -/
theorem SymbolTable.has_empty (path : List String) :
    (SymbolTable.empty : SymbolTable N).has path = false := rfl

/-- The column of a field. -/
def Field.symbol [Number N] (f : Field N) : Symbol N := ⟨f.name, f.dataType, f.bounds⟩

namespace Query

variable [Number N]

/-- The columns that a query over one table can read are those of the table. -/
theorem scope_of_table {q : Query N} {catalog : Catalog N} {table : SymbolTable N}
    {name : Identifier} {label : Option Identifier} {schema : Schema N}
    (hrelations : q.relations = [.table name label]) (hschema : catalog.table name = .ok schema)
    (h : q.loadSymbols catalog SymbolTable.empty = .ok table) :
    table.scope = relationScope (Relation.path (.table name label : Relation (Query N)))
      (schema.fields.map Field.symbol) := by
  obtain ⟨select, relations, selection, groupBy, having, orderBy, limit⟩ := q
  cases hrelations
  simp only [loadSymbols, loadRelations, loadRelation, SymbolTable.has_empty, hschema,
    Bool.false_eq_true, if_false, ok_bind, Except.ok.injEq] at h
  rw [← h]
  exact SymbolTable.scope_insert _ _

/-- The columns that a query over another query can read are those that the other one gives. -/
theorem scope_of_derived {q inner : Query N} {catalog : Catalog N}
    {table innerTable : SymbolTable N} {label : Identifier}
    (hrelations : q.relations = [.derived inner label])
    (hinner : inner.loadSymbols catalog SymbolTable.empty = .ok innerTable)
    (h : q.loadSymbols catalog SymbolTable.empty = .ok table) :
    table.scope = relationScope [label.text] (inner.select.map fun item =>
      ⟨item.name, item.expr.dataType innerTable.scope, item.expr.bounds innerTable.scope⟩) := by
  obtain ⟨select, relations, selection, groupBy, having, orderBy, limit⟩ := q
  cases hrelations
  simp only [loadSymbols, loadRelations, loadRelation, SymbolTable.has_empty, hinner,
    Bool.false_eq_true, if_false, ok_bind, Except.ok.injEq] at h
  rw [← h]
  exact SymbolTable.scope_insert _ _

end Query

/-- **Symbols beside values.**  Whatever relates the columns of a relation to the values of a row,
one by one, relates what stands under the same paths. -/
theorem related_rowBindings {R : Symbol N → Value N → Prop} {symbols : List (Symbol N)}
    {row : List (Value N)} (path : List String) (h : List.Forall₂ R symbols row) :
    PathMap.Related R (relationScope path symbols).columns
      (rowBindings path (symbols.map (·.name)) row) := by
  refine PathMap.related_ofList ?_
  induction h with
  | nil => exact .nil
  | cons hhead htail ih => exact .cons ⟨rfl, hhead⟩ ih

namespace Scope

variable {R : Symbol N → Value N → Prop} {scope : Scope N} {b : Bindings N} {id : Identifier}

/-- Resolving a column is finding its entry, with at most one qualifier. -/
theorem resolve_eq_ok {s : Symbol N} :
    scope.resolve id = .ok s ↔
      (∃ parts, id.splitAlias = .ok parts) ∧ ∃ p, scope.columns.findEntry id.parts = .one (p, s) := by
  rw [resolve, locate]
  cases hsplit : id.splitAlias with
  | error e => simp [Except.map]
  | ok parts =>
      cases hfound : scope.columns.findEntry id.parts with
      | none => simp [Except.map]
      | one e => simp [Except.map, Prod.ext_iff, eq_comm]
      | many => simp [Except.map]

/-- **A column that is resolved has a value.**  Where values stand beside the columns of a scope, the
value of a column is found, and it is related to its symbol. -/
theorem find_of_resolve {s : Symbol N} (hrelated : PathMap.Related R scope.columns b)
    (h : scope.resolve id = .ok s) : ∃ v, b.find id.parts = .one v ∧ R s v := by
  obtain ⟨-, p, hp⟩ := resolve_eq_ok.mp h
  obtain ⟨v, hv, hR⟩ := hrelated.findEntry_one hp
  exact ⟨v, by rw [PathMap.find, hv]; rfl, hR⟩

end Scope

end PrivateSql
