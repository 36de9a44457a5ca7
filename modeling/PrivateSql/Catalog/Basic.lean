import PrivateSql.Catalog.Schema
import PrivateSql.Path.Map
import PrivateSql.Path.Identifier
/-!
# The catalog

The private tables, by path. A table is found by its whole name or by an end of it that no other
table has.

* `Catalog.add` — one more table, in place of the one with the same path;
* `Catalog.table` — the table that an identifier means.
-/

namespace PrivateSql

/-- The private tables, by path. -/
structure Catalog (N : Type) where
  schemas : PathMap (Schema N)
  deriving Inhabited

namespace Catalog

variable {N : Type}

/-- The catalog without tables. -/
def empty : Catalog N := ⟨PathMap.empty⟩

/-- One more table. -/
def add (c : Catalog N) (s : Schema N) : Catalog N :=
  ⟨c.schemas.insert (Identifier.mk s.name).parts s⟩

/-- The catalog of some tables, added in order. -/
def ofSchemas (l : List (Schema N)) : Catalog N := l.foldl add empty

/-- The tables, in the order of their paths. -/
def tables (c : Catalog N) : List (Schema N) := c.schemas.values

/-- The table an identifier means. -/
def table (c : Catalog N) (id : Identifier) : Except QueryError (Schema N) :=
  match c.schemas.find id.parts with
  | .one s => .ok s
  | _ => .error (.unresolvedTable id.text)

/-- Have two catalogs the same tables under the same paths? -/
def agrees [Number N] (c d : Catalog N) : Bool :=
  c.schemas.size == d.schemas.size
    && (c.schemas.entries.zip d.schemas.entries).all fun (s, t) =>
      s.1 == t.1 && s.2.agrees t.2

/-- The text of a catalog, one table a line. -/
def display [Number N] (c : Catalog N) : String :=
  String.join (c.tables.map fun s => s.display ++ "\n")

end Catalog

end PrivateSql
