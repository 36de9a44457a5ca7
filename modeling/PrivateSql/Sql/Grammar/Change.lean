import PrivateSql.Sql.Grammar.Block
/-!
# Changes in place of queries

Rows put into a table and rows changed, which the language allows where a query may stand. They
are read to their end and then refused as a whole.

* `insertion`, `replacement` — the two kinds of change.
-/

namespace PrivateSql.Sql.Grammar

variable (inner : Nested)

/-- A value for a column. Everything up to the sign of equality stands for the column. -/
def assignment : Passage := fun ts =>
  inTurn [need "=", passed inner.term] (ts.dropWhile fun t => decide (mark [t] ≠ "="))

/-- Values for columns. -/
def assignments : Passage := listOf (assignment inner)

/-- The terms given back after a change. -/
def returned : Passage := whenFirst [["RETURNING"]] (listOf (passed (selectItem inner)))

/-- A condition on the rows that are changed. -/
def selection : Passage := whenFirst [["WHERE"]] (passed inner.term)

/-- What becomes of a row that is there already, after `ON`. -/
def conflict : Passage := fun ts =>
  match skip? ["CONFLICT"] ts with
  | none => inTurn [need "DUPLICATE", need "KEY", need "UPDATE", assignments inner] ts
  | some ts => inTurn [target, need "DO", fun ts =>
      match skip? ["NOTHING"] ts with
      | some ts => .ok ts
      | none => inTurn [need "UPDATE", need "SET", assignments inner, selection inner] ts] ts
where
  /-- The columns or the constraint that a row agrees on with another one. -/
  target : Passage := fun ts =>
    match skip? ["ON", "CONSTRAINT"] ts with
    | some ts => passed dottedName ts
    | none => if mark ts = "(" then wordList ts else .ok ts

/-- The rows that are put into a table, and the columns that they are put into. -/
def insertedRows : Passage := fun ts =>
  match skip? ["DEFAULT", "VALUES"] ts with
  | some ts => .ok ts
  | none => inTurn [whenEnclosed [listOf (passed word)],
      whenFirst [["PARTITION"]] (enclosed [inner.terms]), passed inner.query] ts

/-- Rows put into a table, after `INSERT`. -/
def insertion : Passage :=
  inTurn
    [allow ["LOW_PRIORITY", "DELAYED", "HIGH_PRIORITY"], allow ["IGNORE"],
      allow ["INTO", "OVERWRITE"], allow ["LOCAL"], allow ["TABLE"], passed dottedName,
      insertedRows inner,
      whenFirst [["AS"]] (inTurn [passed dottedName, whenEnclosed [listOf (passed word)]]),
      whenFirst [["ON"]] (conflict inner), returned inner]

/-- Rows changed, after `UPDATE`. -/
def replacement : Passage := fun ts =>
  let table := passed (tableSource inner (tableFactor inner (ts.length + 1)))
  inTurn [table, need "SET", assignments inner, whenFirst [["FROM"]] table, selection inner,
    returned inner] ts

end PrivateSql.Sql.Grammar
