import PrivateSql.Value.DataType
/-!
# Rowsets

The answer of a query: names of columns and rows of values. A typed rowset holds the same values by
column, each cast to the type of its column.

* `Rowset.display` — the text of a rowset, the names on its first line;
* `TypedRowset.of` — the columns of a rowset with their types;
* `TypedRowset.find?` — the first column with a name.
-/

namespace PrivateSql

/-- Rows of values under names. -/
structure Rowset (N : Type) where
  names : List String
  rows : List (List (Value N))

namespace Rowset

variable {N : Type} [Number N]

/-- The names as a row of texts, the first row of a rowset. -/
def header (r : Rowset N) : List (Value N) := r.names.map Value.text

/-- The number of rows, the names counted as one. -/
def size (r : Rowset N) : Nat := r.rows.length + 1

/-- Is there no row? -/
def isEmpty (r : Rowset N) : Bool := r.rows.isEmpty

/-- The values of the column at a position. -/
def column (r : Rowset N) (i : Nat) : List (Value N) := r.rows.map fun row => row.getD i .null

/-- The text of a rowset, one row a line. -/
def display (r : Rowset N) : String :=
  String.join
    ((r.header :: r.rows).map fun row => " | ".intercalate (row.map Value.display) ++ "\n")

end Rowset

/-- A column: its name, its type and its values. -/
structure TypedColumn (N : Type) where
  name : String
  dataType : DataType
  values : List (Value N)

/-- A rowset by column. -/
structure TypedRowset (N : Type) where
  columns : List (TypedColumn N)
  size : Nat

namespace TypedRowset

variable {N : Type} [Number N]

/-- Cast the values of a column, up to the first that cannot be. -/
def castColumn (type : DataType) (values : List (Value N)) :
    Except ConversionError (List (Value N)) :=
  values.mapM type.cast

/-- The columns from position `i` on, with their names and types. -/
def columnsFrom (r : Rowset N) (i : Nat) :
    List (String × DataType) → Except ConversionError (List (TypedColumn N))
  | [] => .ok []
  | (name, type) :: rest => do
    let values ← castColumn type (r.column i)
    let columns ← columnsFrom r (i + 1) rest
    .ok (⟨name, type, values⟩ :: columns)

/-- A rowset with the types of its columns. -/
def of (r : Rowset N) (types : List DataType) : Except ConversionError (TypedRowset N) := do
  let columns ← columnsFrom r 0 (r.names.zip types)
  .ok ⟨columns, r.rows.length⟩

/-- The first column with this name, up to the case of ASCII letters. -/
def find? (t : TypedRowset N) (name : String) : Option (TypedColumn N) :=
  t.columns.find? fun c => Text.eqIgnoringAsciiCase c.name name

/-- The names of the columns. -/
def names (t : TypedRowset N) : List String := t.columns.map (·.name)

/-- The text of a typed rowset, one column a line. -/
def display (t : TypedRowset N) : String :=
  String.join (t.columns.map fun c =>
    c.name ++ " (" ++ c.dataType.name ++ "): [" ++ ", ".intercalate (c.values.map Value.display)
      ++ "]\n")

end TypedRowset

end PrivateSql
