import PrivateSql.Value.DataType
import PrivateSql.Interval
import PrivateSql.Path.Map
import PrivateSql.Path.Identifier
/-!
# Symbols

What is known of the columns that a query can read: their types and the bounds declared for them.
Symbols are kept beside the query, by the path under which the relation of the column is visible.

* `SymbolTable` — the columns of each relation;
* `SymbolTable.scope` — all the columns, each under the path of its relation;
* `Scope.resolve` — the column that an identifier means.
-/

namespace PrivateSql

/-- A column that a query can read. -/
structure Symbol (N : Type) where
  name : String
  dataType : DataType
  bounds : Option (Interval N)

/-- The text of a symbol in messages. -/
def Symbol.display {N : Type} [Number N] (s : Symbol N) : String :=
  s.name ++ ": " ++ s.dataType.name ++
    (match s.bounds with
      | some b => " " ++ b.display
      | none => "")

/-- The columns visible from an expression, by path. -/
structure Scope (N : Type) where
  columns : PathMap (Symbol N)
  deriving Inhabited

namespace Scope

variable {N : Type}

/-- The scope without columns. -/
def empty : Scope N := ⟨PathMap.empty⟩

/-- The column an identifier means, with its path: by its qualified name or, when there is only one,
by its bare name. -/
def locate (scope : Scope N) (id : Identifier) : Except QueryError (Path × Symbol N) := do
  let _ ← id.splitAlias
  match scope.columns.findEntry id.parts with
  | .one e => .ok e
  | .none => .error (.unresolvedColumn id.text)
  | .many => .error (.ambiguousColumn id.text)

/-- The column an identifier means. -/
def resolve (scope : Scope N) (id : Identifier) : Except QueryError (Symbol N) :=
  (scope.locate id).map (·.2)

/-- The text of a scope, one column a line. -/
def display [Number N] (scope : Scope N) : String := scope.columns.display Symbol.display

end Scope

/-- The columns of each relation, by the path under which the relation is visible. -/
structure SymbolTable (N : Type) where
  relations : PathMap (PathMap (Symbol N))
  deriving Inhabited

namespace SymbolTable

variable {N : Type}

/-- The table without relations. -/
def empty : SymbolTable N := ⟨PathMap.empty⟩

/-- Is a relation visible under this path? -/
def has (t : SymbolTable N) (path : List String) : Bool := t.relations.contains path

/-- The columns of the relation visible under this path. -/
def get? (t : SymbolTable N) (path : List String) : Option (PathMap (Symbol N)) :=
  t.relations.get? path

/-- Register the columns of a relation, unless there is one under this path; is it registered? -/
def insert (t : SymbolTable N) (path : List String) (symbols : List (Symbol N)) :
    Bool × SymbolTable N :=
  let columns := PathMap.ofList (symbols.map fun s => ([s.name], s))
  let (inserted, relations) := t.relations.insertNew path columns
  (inserted, ⟨relations⟩)

/-- All the columns, each under the path of its relation. -/
def scope (t : SymbolTable N) : Scope N :=
  ⟨PathMap.ofList (t.relations.entries.flatMap fun r => r.2.entries.map fun c => (r.1 ++ c.1, c.2))⟩

end SymbolTable

end PrivateSql
